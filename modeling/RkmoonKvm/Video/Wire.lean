import Mathlib.Logic.Basic

/-! The messages between the bridge and the capture worker, and the negotiated mode. -/
namespace Video

def maxAu : Nat := 8 * 1024 * 1024

structure Codec where
  code : UInt16
  deriving DecidableEq, Repr

def Codec.h264 : Codec := ⟨1⟩
def Codec.hevc : Codec := ⟨2⟩

structure Kind where
  code : UInt16
  deriving DecidableEq, Repr

namespace Kind

def frame : Kind := ⟨1⟩
def ack : Kind := ⟨2⟩
def stop : Kind := ⟨3⟩
def idr : Kind := ⟨4⟩
def bitrate : Kind := ⟨5⟩
def ready : Kind := ⟨6⟩
def caps : Kind := ⟨7⟩
def error : Kind := ⟨8⟩

end Kind

def flagIdr : UInt32 := 1
def flagDmabuf : UInt32 := 2
def flagFullRange : UInt32 := 4
def flagBt709 : UInt32 := 8

structure Header where
  kind : Kind := .frame
  size : UInt32 := 0
  flags : UInt32 := 0
  seq : UInt64 := 0
  dequeueUs : UInt64 := 0
  submitUs : UInt64 := 0
  doneUs : UInt64 := 0
  width : UInt32 := 0
  height : UInt32 := 0
  codec : Codec := .h264
  extra : UInt32 := 0
  deriving DecidableEq

structure Message where
  h : Header := {}
  bytes : List UInt8 := []
  deriving DecidableEq

/-- The IDR bit of the flags, the only one that the receivers read. -/
def Message.isIdr (m : Message) : Bool := m.h.flags &&& flagIdr != 0

structure Config where
  width : UInt32 := 1920
  height : UInt32 := 1080
  fpsX100 : UInt32 := 6000
  bitrate : UInt32 := 20000000
  gop : UInt32 := 60
  codec : Codec := .hevc
  allow1440p90Experiment : Bool := false
  deriving DecidableEq

def Config.validate (c : Config) : Except String Unit :=
  if c.codec ≠ .h264 ∧ c.codec ≠ .hevc then
    throw "unsupported codec"
  else if c.width < 64 ∨ c.height < 64 ∨ 3840 < c.width ∨ 2160 < c.height ∨
      c.width &&& 1 ≠ 0 ∨ c.height &&& 1 ≠ 0 then
    throw "invalid dimensions"
  else if c.fpsX100 < 100 ∨ 12010 < c.fpsX100 then
    throw "invalid framerate"
  else if 3840 * 2160 * 6010 < c.width.toUInt64 * c.height.toUInt64 * c.fpsX100.toUInt64 then
    throw "pixel throughput exceeds 4K60.10 budget"
  else if c.bitrate < 1000000 ∨ 35000000 < c.bitrate ∨ c.gop = 0 ∨ 120 < c.gop then
    throw "invalid bitrate/GOP"
  else
    pure ()

end Video
