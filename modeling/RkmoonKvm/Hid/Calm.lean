import RkmoonKvm.Library.Runs
import RkmoonKvm.Hid.Device

/-! A lease whose event sink never fails: each event is applied to its end before the next. -/
namespace Hid
open Await Runs

def Lease.serve (l : Lease) (e : Event) : Served Lease Call PyError Unit :=
  (Lease.apply e l).served fun _ => ()

namespace Calm

structure State where
  lease : Lease
  /-- The reports that the sink got. -/
  sent : List Report := []

def fresh (mode : MouseMode) (stream : Bool) : State where
  lease := { mouseMode := mode, stream }

def step (s : State) (e : Event) : State where
  lease := (s.lease.serve e).object
  sent := s.sent ++ (s.lease.serve e).ops.map Call.report

def State.device (s : State) : Device := s.sent.foldl Device.press {}

end Calm

end Hid
