import Mathlib.Data.Finset.Filter
import RkmoonKvm.Hid.Lease

/-! The USB device behind kvmd: which keys and buttons are down, and what a report
that kvmd applies does to them. -/
namespace Hid

inductive Control where
  | key (key : Key)
  | button (button : Button)
  deriving DecidableEq, Repr

def Control.report : Control → Bool → Report
  | .key k, down => .key k down
  | .button b, down => .button b down

/-- The control that a report presses or releases, if it is a key or button report. -/
def Report.edge : Report → Option (Control × Bool)
  | .key k down => some (.key k, down)
  | .button b down => some (.button b, down)
  | _ => none

@[simp] theorem edge_report (c : Control) (down : Bool) : (c.report down).edge = some (c, down) := by
  cases c <;> rfl

theorem report_of_edge {r : Report} {c : Control} {down : Bool} (h : r.edge = some (c, down)) :
    r = c.report down := by
  cases r <;> cases h <;> rfl

structure Device where
  keys : Finset Key := ∅
  buttons : Finset Button := ∅
  deriving DecidableEq

namespace Device

def down (d : Device) : Control → Prop
  | .key k => k ∈ d.keys
  | .button b => b ∈ d.buttons

instance (d : Device) (c : Control) : Decidable (d.down c) := by
  cases c <;> simp only [down] <;> infer_instance

def press (d : Device) : Report → Device
  | .key k true => { d with keys := insert k d.keys }
  | .key k false => { d with keys := d.keys.erase k }
  | .button b true => { d with buttons := insert b d.buttons }
  | .button b false => { d with buttons := d.buttons.erase b }
  | _ => d

theorem down_press (d : Device) (r : Report) (c : Control) :
    (d.press r).down c ↔ r.edge = some (c, true) ∨ (d.down c ∧ r.edge ≠ some (c, false)) := by
  cases r with
  | key k down =>
    cases down <;> cases c <;> simp [press, Device.down, Report.edge, and_comm, eq_comm]
  | button b down =>
    cases down <;> cases c <;> simp [press, Device.down, Report.edge, and_comm, eq_comm]
  | _ => simp [press, Report.edge]

theorem eq_empty {d : Device} (up : ∀ c, ¬ d.down c) : d = {} := by
  obtain ⟨ks, bs⟩ := d
  have noKey : ks = ∅ := Finset.eq_empty_iff_forall_notMem.mpr fun k => up (.key k)
  have noButton : bs = ∅ := Finset.eq_empty_iff_forall_notMem.mpr fun b => up (.button b)
  rw [noKey, noButton]

end Device

end Hid
