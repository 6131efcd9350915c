import TaggedImage.Limits
import TaggedImage.Stream.Basic

/-!
# Calls on a file

A call on a file answers with a result or a `Fault`, and always with the stream it leaves behind.
Calls on streams and plain checks are such calls. A caller may take the fault of a call as a result
(`FileM.attempt`), unless it stops the program.
-/

namespace TaggedImage

/-- A call on a file whose state is a `σ`. -/
abbrev FileM (σ : Type) := EStateM Fault σ

variable {σ α : Type}

/-- A check that leaves the state alone. -/
def FileM.ofExcept : Except Fault α → FileM σ α
  | .ok a => pure a
  | .error fault => throw fault

/-- A call on the stream of a file. -/
def FileM.ofStream (call : StreamM σ α) : FileM σ α := fun s =>
  match call s with
  | .ok a s => .ok a s
  | .error e s => .error (.stream e) s

/-- The call with another fault in place of the one it raises. -/
def FileM.mapFault (f : Fault → Fault) (call : FileM σ α) : FileM σ α := fun s =>
  match call s with
  | .ok a s => .ok a s
  | .error fault s => .error (f fault) s

/-- The call with its fault, if it raises one, as a result. A fault that stops the program is raised
again. -/
def FileM.attempt (call : FileM σ α) : FileM σ (Except Fault α) := fun s =>
  match call s with
  | .ok a s => .ok (.ok a) s
  | .error fault s => if fault.stops then .error fault s else .ok (.error fault) s

instance : MonadLift (Except Fault) (FileM σ) := ⟨FileM.ofExcept⟩

/-- The sum of two words, which stops the program if it is no word. -/
def FileM.sum (a b : Nat) : FileM σ Nat :=
  match Word.add? a b with
  | some n => pure n
  | none => throw .overflow

/-- The size of the stream. -/
def FileM.size [Channel σ] : FileM σ Nat := do return Channel.size (← get)

/-- Exactly the `len` bytes at `offset`. -/
def FileM.readExactAt [Stream σ] (offset len : Nat) : FileM σ ByteArray :=
  ofStream (Stream.readExactAt offset len)

/-- How a file is opened. -/
structure Options where
  /-- Whether directories that break a rule of the format are refused where they could be read. -/
  strict : Bool := false
  /-- Whether tags nothing is known of are reported. -/
  warnUnknownTags : Bool := false
  /-- The largest number of jumps away from the chain of directories. -/
  maxJumps : Nat := 1024
  /-- What the file may ask for. -/
  limits : Limits := {}
  deriving DecidableEq, Inhabited

end TaggedImage
