import TaggedImage.Proofs.Alike
import TaggedImage.Proofs.Session

/-!
# Runs of calls on a browser

A `Browser.Call` is any call on an open file, with arguments of its own. Only four of them move the
place in the chain, and `Browser.goTo` does it by rewinding and walking, so that what holds after
any run of calls (`Browser.afterCalls`) has to be shown of a step along the chain
(`Browser.next_steps`), of a jump and of a rewind; what the other calls leave is said by
`Browser.Call.run_quiet`.
-/

namespace TaggedImage

open FileM

variable {σ τ : Type} [Stream σ] [Stream τ]

namespace Browser

/-- A call on an open file. -/
inductive Call where
  | next
  | rewind
  | jump (offset : Nat)
  | goTo (index : Nat)
  | enumerate (most : Nat)
  | count
  | enter (e : Entry) (index : Nat)
  | subDirectory (tag : TagId) (index : Nat)
  | subDirectoryOffsets
  | value (e : Entry)
  | field (tag : TagId)
  | unsigned (tag : TagId)
  | unsignedOrDefault (tag : TagId)
  | layout
  | layoutOf (d : Directory)
  | rawUnit (l : Layout) (index : Nat)
  | decodedUnit (l : Layout) (index : Nat) (codecs : Codecs)
  | register (d : Descriptor)

/-- Answers a directory if there is one. -/
def answerFound (call : FileM (Browser σ) (Option Directory)) : FileM (Browser σ) Answer := do
  match ← call with
  | some d => return .directory d
  | none => return .nothing

/-- Makes a descriptor known to the catalog. -/
def register (d : Descriptor) : FileM (Browser σ) Unit := fun b =>
  match b.catalog.register d with
  | .ok catalog => .ok ⟨⟩ { b with catalog := catalog }
  | .error fault => .error fault b

namespace Call

/-- Makes a call. -/
def run : Call → FileM (Browser σ) Answer
  | next => answerFound Browser.next
  | rewind => do modify rewound; return .nothing
  | jump offset => do return .directory (← jumpTo offset)
  | goTo index => do return .directory (← Browser.goTo index)
  | enumerate most => do return .directories (← Browser.enumerate most)
  | count => do return .numbers [← Browser.count]
  | enter e index => do return .directory (← Browser.enter e index)
  | subDirectory tag index => answerFound (Browser.subDirectory tag index)
  | subDirectoryOffsets => do return .numbers (← Browser.subDirectoryOffsets)
  | value e => do return .value e (← readValue e)
  | field tag => do
    let b ← get
    match b.currentField? tag, ← fieldValue tag with
    | some e, some v => return .value e v
    | _, _ => return .nothing
  | unsigned tag => do return .numbers (← fieldUnsigned tag).toList
  | unsignedOrDefault tag => do return .numbers (← fieldUnsignedOrDefault tag).toList
  | layout => do return .layout (← Browser.layout)
  | layoutOf d => do return .layout (← Browser.layoutOf d)
  | rawUnit l index => do return .rawUnit l index (← Browser.rawUnit l index)
  | decodedUnit l index codecs => do return .decodedUnit (← Browser.decodedUnit l index codecs)
  | register d => do Browser.register d; return .nothing

/-- Whether the call moves the place in the chain. -/
def isMove : Call → Bool
  | next | rewind | jump _ | goTo _ => true
  | _ => false

/-- Whether the call does nothing but read: it moves no place, needs no jump and leaves the catalog
alone. -/
def isRead : Call → Bool
  | next | rewind | jump _ | goTo _ | enter .. | subDirectory .. | register _ => false
  | _ => true

end Call

/-- The browser after some calls, of which any may fail. -/
def afterCalls (b : Browser σ) (calls : List Call) : Browser σ :=
  calls.foldl (fun b call => leaves call.run b) b

/-! ## Related browsers -/

section
variable {R : σ → τ → Prop} {W : Browser σ → Prop}

omit [Stream σ] [Stream τ] in
/-- Calls that match find the same directories. -/
theorem answerFound_matches {x : FileM (Browser σ) (Option Directory)}
    {y : FileM (Browser τ) (Option Directory)} (h : Matches (Twin R W) x y) :
    Matches (Twin R W) (answerFound x) (answerFound y) := by
  refine h.bind fun found => ?_
  cases found <;> exact matches_pure _

omit [Stream σ] [Stream τ] in
/-- A tag is registered alike on both sides. -/
theorem register_matches (hW : Steady W) (d : Descriptor) :
    Matches (Twin R W) (register d) (register d) := by
  rintro b _ ⟨hb, stream, hR, rfl⟩
  unfold register
  rw [show (b.withStream stream).catalog = b.catalog from rfl]
  cases b.catalog.register d with
  | ok catalog => exact .ok ⟨hW b _ _ _ hb, stream, hR, rfl⟩
  | error fault => exact .error ⟨hb, stream, hR, rfl⟩

/-- A call that only reads ends alike on related browsers, and leaves alone what does not depend on
the stream. -/
theorem Call.run_matches_of_isRead (h : Echoes R) (hW : OffStream W) {call : Call}
    (hc : call.isRead) : Matches (Twin R W) call.run call.run := by
  have hreturn {α : Type} {x : FileM (Browser σ) α} {y : FileM (Browser τ) α} (f : α → Answer)
      (hx : Matches (Twin R W) x y) :
      Matches (Twin R W) (do return f (← x)) (do return f (← y)) :=
    hx.bind fun _ => matches_pure _
  cases call with
  | next | rewind | jump | goTo | enter | subDirectory | register => cases hc
  | enumerate most => exact hreturn _ (enumerate_matches h hW most)
  | count => exact hreturn _ (count_matches h hW)
  | subDirectoryOffsets => exact hreturn _ (subDirectoryOffsets_matches h hW)
  | value e => exact hreturn _ (readValue_matches h hW e)
  | field tag =>
    refine matches_get fun b stream => (fieldValue_matches h hW tag).bind fun found => ?_
    simp only [withStream_currentField?]
    split
    · exact matches_pure _
    · exact matches_pure _
  | unsigned tag => exact hreturn _ (fieldUnsigned_matches h hW tag)
  | unsignedOrDefault tag => exact hreturn _ (fieldUnsignedOrDefault_matches h hW tag)
  | layout => exact hreturn _ (layout_matches h hW)
  | layoutOf d => exact hreturn _ (layoutOf_matches h hW d)
  | rawUnit l index => exact hreturn _ (rawUnit_matches h hW l index)
  | decodedUnit l index codecs => exact hreturn _ (decodedUnit_matches h hW l index codecs)

/-- A call that is no move ends alike on related browsers, and leaves alone what does not depend on
the stream, the catalog and the number of jumps. -/
theorem Call.run_matches_of_not_isMove (h : Echoes R) (hW : Steady W) {call : Call}
    (hc : call.isMove = false) : Matches (Twin R W) call.run call.run := by
  cases call with
  | next | rewind | jump | goTo => cases hc
  | enter e index => exact (enter_matches h hW e index).bind fun _ => matches_pure _
  | subDirectory tag index => exact answerFound_matches (subDirectory_matches h hW tag index)
  | register d => exact (register_matches hW d).bind fun _ => matches_pure _
  | _ => exact run_matches_of_isRead h hW.offStream rfl

/-- A call ends alike on related browsers, and leaves the file alone. -/
theorem Call.run_matches (h : Echoes R) (hW : OfFile W) (call : Call) :
    Matches (Twin R W) call.run call.run := by
  cases call with
  | next => exact answerFound_matches (next_matches h hW)
  | rewind =>
    rintro b _ ⟨hb, stream, hR, rfl⟩
    exact .ok ⟨hW b _ rfl rfl hb, stream, hR, rfl⟩
  | jump offset => exact (jumpTo_matches h hW offset).bind fun _ => matches_pure _
  | goTo index => exact (goTo_matches h hW index).bind fun _ => matches_pure _
  | _ => exact run_matches_of_not_isMove h hW.steady rfl

end

/-! ## What a call leaves -/

section
variable {P : σ → Prop} {content : ByteArray}

/-- A stream echoes itself. -/
theorem echoes_eq : Echoes (σ := σ) (τ := σ) Eq where
  size h := h ▸ rfl
  read offset len := by
    rintro s _ rfl
    cases FileM.readExactAt offset len s with
    | ok _ _ => exact .ok rfl
    | error _ _ => exact .error rfl

/-- A stream that serves a content and refuses all else echoes itself. -/
theorem echoes_self (hP : Serves P content) (hR : Refuses P content) :
    Echoes (σ := σ) (τ := σ) fun s t => t = s ∧ P s where
  size h := by rw [h.1]
  read offset len := by
    rintro s _ ⟨rfl, hs⟩
    by_cases hr : offset + len ≤ content.size
    · obtain ⟨s', hs', he⟩ := hP.read offset len hs hr
      rw [FileM.readExactAt, FileM.ofStream, he]
      exact .ok ⟨rfl, hs'⟩
    · obtain ⟨e, s', -, hs', he⟩ := hR.read offset len hs (by omega)
      rw [FileM.readExactAt, FileM.ofStream, he]
      exact .error ⟨rfl, hs'⟩

variable {b : Browser σ}

/-- A call that is no move changes the stream, the catalog and the number of jumps at most. -/
theorem Call.run_quiet {call : Call} (hc : call.isMove = false) :
    ∃ stream catalog jumps,
      leaves call.run b = { b with stream := stream, catalog := catalog, jumps := jumps } := by
  have hW : Steady fun b' : Browser σ => ∃ stream catalog jumps,
      b' = { b with stream := stream, catalog := catalog, jumps := jumps } := by
    rintro _ _ _ _ ⟨_, _, _, rfl⟩
    exact ⟨_, _, _, rfl⟩
  exact (run_matches_of_not_isMove echoes_eq hW hc b b
    ⟨⟨b.stream, b.catalog, b.jumps, rfl⟩, b.stream, rfl, rfl⟩).leaves.1

/-- A call that only reads changes the stream at most. -/
theorem Call.run_read {call : Call} (hc : call.isRead) :
    ∃ stream, leaves call.run b = { b with stream := stream } := by
  have hW : OffStream fun b' : Browser σ => ∃ stream, b' = { b with stream := stream } := by
    rintro _ _ ⟨_, rfl⟩
    exact ⟨_, rfl⟩
  exact (run_matches_of_isRead echoes_eq hW hc b b
    ⟨⟨b.stream, rfl⟩, b.stream, rfl, rfl⟩).leaves.1

/-- A call leaves the header and the options as they are. -/
theorem Call.run_file (call : Call) :
    (leaves call.run b).header = b.header ∧ (leaves call.run b).options = b.options := by
  have hW : OfFile fun b' : Browser σ => b'.header = b.header ∧ b'.options = b.options :=
    fun _ _ hh ho h => ⟨hh.trans h.1, ho.trans h.2⟩
  exact (call.run_matches echoes_eq hW b b ⟨⟨rfl, rfl⟩, b.stream, rfl, rfl⟩).leaves.1

/-- A call leaves the stream in a state in which it serves the content. -/
theorem Call.run_keeps (hP : Serves P content) (hR : Refuses P content) (hb : P b.stream)
    (call : Call) : P (leaves call.run b).stream := by
  obtain ⟨-, stream, ⟨-, hs⟩, -⟩ := (call.run_matches (echoes_self hP hR) (W := fun _ => True)
    (fun _ _ _ _ _ => trivial) b b ⟨trivial, b.stream, ⟨rfl, hb⟩, rfl⟩).leaves
  exact hs

/-- What every call keeps holds after any run of calls. -/
theorem afterCalls_keeps {I : Browser σ → Prop}
    (hcall : ∀ b call, I b → I (leaves (Call.run call) b)) (hb : I b) (calls : List Call) :
    I (b.afterCalls calls) := by
  induction calls generalizing b with
  | nil => exact hb
  | cons call calls ih => exact ih (hcall b call hb)

/-- No run of calls changes how the file was opened. -/
theorem afterCalls_file (calls : List Call) :
    (b.afterCalls calls).header = b.header ∧ (b.afterCalls calls).options = b.options :=
  afterCalls_keeps (I := fun b' => b'.header = b.header ∧ b'.options = b.options)
    (fun _ call h => ⟨call.run_file.1.trans h.1, call.run_file.2.trans h.2⟩) ⟨rfl, rfl⟩ calls

/-- A file that is opened begins at the header that was read, in the state that this left. -/
theorem ofStream_eq_ok {stream : σ} {options : Options} {catalog : Catalog}
    (ho : Browser.ofStream stream options catalog = .ok b) :
    ∃ header s, readHeader options.strict stream = .ok header s ∧
      b = { stream := s, header, options, catalog } := by
  unfold Browser.ofStream at ho
  split at ho
  · cases ho
  · next header s hr =>
    cases ho
    exact ⟨header, s, hr, rfl⟩

/-- The stream of a file that is opened serves the content as before. -/
theorem ofStream_keeps (hP : Serves P content) {stream : σ} (hs : P stream) {options : Options}
    {catalog : Catalog} (ho : Browser.ofStream stream options catalog = .ok b) : P b.stream := by
  obtain ⟨header, s, hr, rfl⟩ := ofStream_eq_ok ho
  obtain ⟨s', hs', hg⟩ := readHeader_gives hP options.strict stream hs
  obtain ⟨-, rfl⟩ := answer_eq_ok.1 (hg.symm.trans hr)
  exact hs'

end

/-! ## Moves -/

section
variable {b : Browser σ}

omit [Stream σ] in
/-- Over a known place the walk passes without a record. -/
theorem arrive_known {d : Directory} {offset : Nat} {place : Option Nat}
    (h : b.isKnown offset place = true) :
    b.arrive d offset place = { b with started := true, current := some d, index := place } :=
  if_pos h

omit [Stream σ] in
/-- An offset that is not known where the walk has come to is recorded at the end of the list. -/
theorem arrive_new {d : Directory} {offset : Nat} {place : Option Nat}
    (h : b.isKnown offset place = false) :
    b.arrive d offset place =
      { b with
        started := true, current := some d
        index := place.map fun _ => b.chain.length
        chain := b.chain ++ [offset], visited := b.visited.insert offset } :=
  if_neg (by rw [h]; decide)

omit [Stream σ] in
/-- The place behind the list is not a known one. -/
theorem isKnown_length (b : Browser σ) (offset : Nat) :
    b.isKnown offset (some b.chain.length) = false := by
  rw [isKnown, Option.any_some, List.getElem?_eq_none (Nat.le_refl _)]
  rfl

omit [Stream σ] in
/-- Nothing holds the walk up at an offset that is at a known place, or new while there is room. -/
theorem obstacle?_eq_none {offset : Nat} {place : Option Nat} :
    b.obstacle? offset place = none ↔ offset ≠ 0 ∧ (b.isKnown offset place = true ∨
      b.isKnown offset place = false ∧ offset ∉ b.visited ∧
        b.visited.size < b.options.limits.directories) := by
  simp only [obstacle?, ← Std.TreeSet.mem_iff_contains]
  split
  · simp [*]
  · split
    · simp [*]
    · split
      · simp [*]
      · split
        · simp [*]
        · simp [*]
          omega

omit [Stream σ] in
/-- The place that comes next lies in the list or right behind it, if that of the current directory
lies in the list. -/
theorem place_le (hi : ∀ i, b.index = some i → i < b.chain.length) {offset place : Nat}
    (hs : b.successor = (offset, some place)) : place ≤ b.chain.length := by
  unfold successor at hs
  split at hs
  · split at hs
    · obtain ⟨i, hindex, rfl⟩ := Option.map_eq_some_iff.1 (Prod.mk.inj hs).2
      exact hi i hindex
    · cases hs
  · cases hs
    exact Nat.zero_le _

/-- A call on the stream ends with the browser on the stream that it leaves. -/
theorem directoryAt_cases (b : Browser σ) (offset : Nat) :
    (∃ d stream, directoryAt offset b = .ok d { b with stream := stream }) ∨
    ∃ fault stream, directoryAt offset b = .error fault { b with stream := stream } := by
  unfold directoryAt onStream
  cases Directory.read b.header b.options b.catalog offset b.stream with
  | ok d stream => exact .inl ⟨d, stream, rfl⟩
  | error fault stream => exact .inr ⟨fault, stream, rfl⟩

/-- How a step along the chain ends: it was stopped before, something keeps it from reading, the
directory cannot be read, or it arrives. -/
inductive Stepped (b : Browser σ) :
    EStateM.Result Fault (Browser σ) (Option Directory) → Prop
  | stopped (hstop : b.stop.isSome) : Stepped b (.ok none b)
  | held {offset place reason} (hstop : b.stop = none) (hs : b.successor = (offset, place))
      (ho : b.obstacle? offset place = some reason) :
      Stepped b (.ok none { b with started := true, stop := some reason })
  | failed {offset place fault stream} (hstop : b.stop = none) (hs : b.successor = (offset, place))
      (ho : b.obstacle? offset place = none)
      (hd : directoryAt offset b = .error fault { b with stream := stream }) :
      Stepped b (.error fault
        { b with stream := stream, started := true, stop := some .malformed })
  | arrived {offset place d stream} (hstop : b.stop = none) (hs : b.successor = (offset, place))
      (ho : b.obstacle? offset place = none)
      (hd : directoryAt offset b = .ok d { b with stream := stream }) :
      Stepped b (.ok (some d) (({ b with stream := stream } : Browser σ).arrive d offset place))

/-- Every step along the chain is one of those. -/
theorem next_steps (b : Browser σ) : Stepped b (next b) := by
  cases hst : b.stop with
  | some reason =>
    rw [next_stopped (hst ▸ rfl)]
    exact .stopped (hst ▸ rfl)
  | none =>
    obtain ⟨⟨offset, place⟩, hs⟩ : ∃ successor, b.successor = successor := ⟨_, rfl⟩
    cases ho : b.obstacle? offset place with
    | some reason =>
      rw [next_stop hst hs ho]
      exact .held hst hs ho
    | none =>
      rw [next_reads hst hs ho]
      rcases directoryAt_cases b offset with ⟨d, stream, hd⟩ | ⟨fault, stream, hd⟩
      · rw [hd]
        exact .arrived hst hs ho hd
      · rw [hd]
        exact .failed hst hs ho hd

/-- How a jump ends: no jump is left, the directory cannot be read, or it lands. -/
inductive Jumped (b : Browser σ) (offset : Nat) :
    EStateM.Result Fault (Browser σ) Directory → Prop
  | refused {fault} : Jumped b offset (.error fault b)
  | failed {fault stream} : Jumped b offset
      (.error fault { b with stream := stream, jumps := b.jumps + 1 })
  | landed {d stream}
      (hd : directoryAt offset { b with jumps := b.jumps + 1 } =
        .ok d { b with stream := stream, jumps := b.jumps + 1 }) :
      Jumped b offset (.ok d { b with
        stream := stream, jumps := b.jumps + 1
        current := some d, index := b.chain.idxOf? offset, started := true, stop := none })

/-- A jump does one of the three things that `Jumped` lists. -/
theorem jumpTo_jumps (b : Browser σ) (offset : Nat) : Jumped b offset (jumpTo offset b) := by
  by_cases hj : b.options.maxJumps ≤ b.jumps
  · have hr : jumpTo offset b = .error (.jumpLimit b.options.maxJumps) b :=
      bind_of_error (if_pos hj)
    rw [hr]
    exact .refused
  · have ht : takeJump b = .ok ⟨⟩ { b with jumps := b.jumps + 1 } := if_neg hj
    rw [jumpTo, bind_of_ok ht]
    rcases directoryAt_cases { b with jumps := b.jumps + 1 } offset with
      ⟨d, stream, hd⟩ | ⟨fault, stream, hd⟩
    · rw [bind_of_ok hd]
      exact .landed hd
    · rw [bind_of_error hd]
      exact .failed

/-- The browser after `n` steps along the chain. -/
def afterSteps (b : Browser σ) : Nat → Browser σ
  | 0 => b
  | n + 1 => (leaves next b).afterSteps n

/-- A walk that has stopped takes no more steps. -/
theorem afterSteps_of_stop (h : b.stop.isSome) (n : Nat) : b.afterSteps n = b := by
  induction n with
  | zero => rfl
  | succ n ih => rwa [afterSteps, leaves_of_ok (next_stopped h)]

/-- A step that answers no directory, or a fault, ends the walk. -/
theorem next_stops (h : ∀ d b', next b ≠ .ok (some d) b') : (leaves next b).stop.isSome := by
  have hn := b.next_steps
  unfold leaves
  generalize next b = r at hn h
  cases hn with
  | stopped hstop => exact hstop
  | held => rfl
  | failed => rfl
  | arrived => exact absurd rfl (h _ _)

/-- No step further, the directory is the current one. -/
theorem advance_zero {index : Nat} {d : Directory} (h : b.current = some d) :
    advance index 0 b = .ok d b := by
  unfold advance
  rw [get_bind, h]
  rfl

/-- Without a step and without a current directory, an advance fails. -/
theorem advance_zero_of_none {index : Nat} (h : b.current = none) :
    advance index 0 b = .error (.geometry .noDirectory) b := by
  unfold advance
  rw [get_bind, h]
  rfl

/-- A step that comes to a directory is followed by the others. -/
theorem advance_of_some {d : Directory} {b' : Browser σ} (h : next b = .ok (some d) b')
    (index n : Nat) : advance index (n + 1) b = advance index n b' :=
  bind_of_ok h

/-- A step that fails ends the walk. -/
theorem advance_of_error {fault : Fault} {b' : Browser σ} (h : next b = .error fault b')
    (index n : Nat) : advance index (n + 1) b = .error fault b' :=
  bind_of_error h

/-- A walk to a place that stops before says why it stopped. -/
theorem advance_of_none {b' : Browser σ} (h : next b = .ok none b') (index n : Nat) :
    advance index (n + 1) b =
      .error (match b'.stop with
        | some (.cycle offset) => .cycle offset
        | _ => .outOfRange index 1 b'.chain.length) b' := by
  refine (bind_of_ok h).trans ?_
  dsimp only
  rw [get_bind]
  cases b'.stop with
  | none => rfl
  | some reason => cases reason <;> rfl

/-- Wherever an advance ends, the browser is where that many steps lead. -/
theorem leaves_advance (index n : Nat) : leaves (advance index n) b = b.afterSteps n := by
  induction n generalizing b with
  | zero =>
    cases hc : b.current with
    | none => exact leaves_of_error (advance_zero_of_none hc)
    | some d => exact leaves_of_ok (advance_zero hc)
  | succ n ih =>
    rw [afterSteps]
    cases hr : next b with
    | error fault b' =>
      have hstop := next_stops (b := b) fun d b' h => by rw [hr] at h; cases h
      rw [leaves_of_error hr] at hstop ⊢
      rw [leaves_of_error (advance_of_error hr index n), afterSteps_of_stop hstop]
    | ok found b' =>
      cases found with
      | some d =>
        rw [leaves, advance_of_some hr, leaves_of_ok hr]
        exact ih
      | none =>
        have hstop := next_stops (b := b) fun d b' h => by rw [hr] at h; cases h
        rw [leaves_of_ok hr] at hstop ⊢
        rw [leaves_of_error (advance_of_none hr index n), afterSteps_of_stop hstop]

omit [Stream σ] in
/-- What is made of a result does not change the browser. -/
theorem leaves_return {α : Type} (x : FileM (Browser σ) α) (f : α → Answer) :
    leaves (do return f (← x)) b = leaves x b := by
  rw [leaves_bind, leaves]
  cases x b <;> rfl

omit [Stream σ] in
/-- What is made of a directory that may be missing does not change the browser. -/
theorem leaves_answerFound (x : FileM (Browser σ) (Option Directory)) :
    leaves (answerFound x) b = leaves x b := by
  rw [answerFound, leaves_bind, leaves]
  cases x b with
  | error _ _ => rfl
  | ok found _ => cases found <;> rfl

/-- A call for the next directory is a step. -/
theorem Call.leaves_next : leaves (run next) b = leaves Browser.next b := leaves_answerFound _

/-- A call for a jump is a jump. -/
theorem Call.leaves_jump (offset : Nat) : leaves (run (jump offset)) b = leaves (jumpTo offset) b :=
  leaves_return _ _

/-- Going to a place is rewinding and walking there, as far as it goes. -/
theorem Call.leaves_goTo (index : Nat) :
    leaves (run (goTo index)) b = b.rewound.afterSteps (index + 1) :=
  (leaves_return _ _).trans (leaves_advance index (index + 1))

end

/-! ## Logs -/

/-- A log kept beside a browser: every step along the chain adds to it, and a rewind begins a new
one. -/
structure Log (σ α : Type) where
  /-- The log at the beginning of the chain. -/
  new : α
  /-- The log after a step from this browser. -/
  step : Browser σ → α → α

namespace Log

variable {α : Type} (log : Log σ α)

/-- The log after `n` steps along the chain. -/
def afterSteps : Nat → Browser σ → α → α
  | 0, _, a => a
  | n + 1, b, a => afterSteps n (leaves next b) (log.step b a)

/-- The log after a call. -/
def afterCall (b : Browser σ) (a : α) : Call → α
  | .next => log.step b a
  | .rewind => log.new
  | .goTo index => log.afterSteps (index + 1) b.rewound log.new
  | _ => a

/-- The log after some calls. -/
def afterCalls : List Call → Browser σ → α → α
  | [], _, a => a
  | call :: calls, b, a => afterCalls calls (leaves call.run b) (log.afterCall b a call)

variable {log} {I : Browser σ → α → Prop} {b : Browser σ} {a : α}

/-- A call that is no move leaves the log as it is. -/
theorem afterCall_of_not_isMove {call : Call} (h : call.isMove = false) :
    log.afterCall b a call = a := by
  cases call with
  | next | rewind | goTo => cases h
  | _ => rfl

/-- What one step keeps along with a log, several steps keep. -/
theorem afterSteps_keeps (hstep : ∀ b a, I b a → I (leaves next b) (log.step b a)) (h : I b a)
    (n : Nat) : I (b.afterSteps n) (log.afterSteps n b a) := by
  induction n generalizing b a with
  | zero => exact h
  | succ n ih => exact ih (hstep b a h)

/-- What holds of a browser and a log, and is kept by steps along the chain, rewinds and jumps and
by the calls that are no moves, holds after any run of calls. -/
theorem afterCalls_keeps (hstep : ∀ b a, I b a → I (leaves next b) (log.step b a))
    (hrewind : ∀ b a, I b a → I b.rewound log.new)
    (hjump : ∀ b a offset, I b a → I (leaves (jumpTo offset) b) a)
    (hquiet : ∀ b a call, Call.isMove call = false → I b a → I (leaves call.run b) a) (h : I b a)
    (calls : List Call) : I (b.afterCalls calls) (log.afterCalls calls b a) := by
  induction calls generalizing b a with
  | nil => exact h
  | cons call calls ih =>
    refine ih ?_
    show I (leaves call.run b) (log.afterCall b a call)
    cases call with
    | next =>
      rw [Call.leaves_next]
      exact hstep b a h
    | rewind => exact hrewind b a h
    | jump offset =>
      rw [Call.leaves_jump]
      exact hjump b a offset h
    | goTo index =>
      rw [Call.leaves_goTo]
      exact afterSteps_keeps hstep (hrewind b a h) (index + 1)
    | _ => exact hquiet b a _ rfl h

end Log

/-- What is kept by steps along the chain, rewinds and jumps and by the calls that are no moves,
holds after any run of calls. -/
theorem afterCalls_of_moves {I : Browser σ → Prop} {b : Browser σ}
    (hstep : ∀ b, I b → I (leaves next b)) (hrewind : ∀ b, I b → I b.rewound)
    (hjump : ∀ b offset, I b → I (leaves (jumpTo offset) b))
    (hquiet : ∀ b call, Call.isMove call = false → I b → I (leaves call.run b)) (h : I b)
    (calls : List Call) : I (b.afterCalls calls) :=
  @Log.afterCalls_keeps σ _ Unit ⟨(), fun _ _ => ()⟩ (fun b _ => I b) b () (fun b _ => hstep b)
    (fun b _ => hrewind b) (fun b _ => hjump b) (fun b _ => hquiet b) h calls

end Browser

end TaggedImage
