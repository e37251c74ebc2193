import CrashCore.Library.Codec

/-! Recorded frames and the file they are replayed from (`tools/replay_source.hpp`). A file is its bytes, or `none` when it
cannot be opened; the host is little-endian. -/

namespace CrashCore

structure RecordedFrame where
  timestampMs : Int := 0
  data : List UInt8
deriving DecidableEq

/-- An `int64_t` as a `uint64_t`, and back. -/
def toUnsigned (i : Int) : Nat := (i % 2 ^ 64).toNat

def toSigned (n : Nat) : Int := if n < 2 ^ 63 then n else n - 2 ^ 64

namespace RecordedFrame

/-- The longest frame that is loaded. -/
def maxLength : Nat := 16 * 1024 * 1024

def writeFrame (f : RecordedFrame) : List UInt8 :=
  LittleEndian.bytes 8 (toUnsigned f.timestampMs) ++ LittleEndian.bytes 4 f.data.length ++ f.data

/-- One turn of the loop of `load`; `none` is its end. -/
def readFrame (file : List UInt8) : Option (RecordedFrame × List UInt8) := do
  let (ts, file) ← Codec.number 8 file
  let (len, file) ← Codec.number 4 file
  if maxLength < len ∨ file.length < len then none
  else some ({ timestampMs := toSigned ts, data := file.take len }, file.drop len)

def readFrames (file : List UInt8) : List RecordedFrame := (Codec.toEnd readFrame file.length file).1

end RecordedFrame

structure ReplaySource where
  file : Option (List UInt8) := none
  frames : List RecordedFrame := []
  cursor : Nat := 0

namespace ReplaySource

def load (s : ReplaySource) : Bool × ReplaySource :=
  match s.file with
  | none => (false, s)
  | some file =>
    let frames := RecordedFrame.readFrames file
    (!frames.isEmpty, { s with frames, cursor := 0 })

def loadSynthetic (s : ReplaySource) (frames : List RecordedFrame) : ReplaySource := { s with frames, cursor := 0 }

def next (s : ReplaySource) : Option RecordedFrame × ReplaySource :=
  match s.frames[s.cursor]? with
  | none => (none, s)
  | some f => (some f, { s with cursor := s.cursor + 1 })

def reset (s : ReplaySource) : ReplaySource := { s with cursor := 0 }

def remaining (s : ReplaySource) : Nat := s.frames.length - s.cursor

/-- `while (auto frame = src.next())`, for at most `fuel` turns. -/
def replay : Nat → ReplaySource → List RecordedFrame × ReplaySource
  | 0, s => ([], s)
  | fuel + 1, s =>
    match s.next with
    | (none, s) => ([], s)
    | (some f, s) =>
      let (fs, s) := replay fuel s
      (f :: fs, s)

end ReplaySource
end CrashCore
