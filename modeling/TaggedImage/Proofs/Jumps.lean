import TaggedImage.Proofs.Calls

/-!
# The budget of jumps

A jump to an offset and a descent into a sub-directory are charged before anything is read, so that
they count whether or not there is a directory to be read (`Browser.Charged`). After any run of
calls the number of jumps is the number of calls that were granted one since the last beginning, and
when none is left such a call is refused and changes nothing (`Browser.guarded_afterCalls`). No call
but those that are there to move the place in the chain moves it, nor does a jump that fails.

That a refusal is told by its fault needs that no read raises the same fault, on whatever stream
(`FileM.Unrefused`).
-/

namespace TaggedImage

open FileM

variable {σ α β : Type}

/-! ## Faults of reads -/

/-- Whether the fault says that no jump was left. -/
def Fault.isRefusal : Fault → Bool
  | jumpLimit _ => true
  | _ => false

/-- The result is no fault that says that no jump was left. -/
abbrev FileM.Permits (x : Except Fault α) : Prop :=
  Answers (fun fault => fault.isRefusal = false) (fun _ => True) x

/-- From no state the call fails because no jump is left. -/
abbrev FileM.Unrefused (call : FileM σ α) : Prop :=
  Confined (fun _ => True) (fun fault => fault.isRefusal = false) call (fun _ => True)

section
variable [Stream σ]

/-- To ask for the size of a stream needs no jump. -/
theorem unrefused_size : Unrefused (FileM.size : FileM σ Nat) := fun _ _ => ⟨trivial, trivial⟩

/-- An exact read needs no jump: its faults are those of the stream. -/
theorem unrefused_readExactAt (offset len : Nat) :
    Unrefused (FileM.readExactAt offset len : FileM σ ByteArray) := by
  intro s _
  unfold Ends FileM.readExactAt FileM.ofStream
  cases Stream.readExactAt offset len s with
  | ok data s' => exact ⟨trivial, trivial⟩
  | error e s' => exact ⟨trivial, rfl⟩

namespace Directory

/-- To read a number needs no jump. -/
theorem unrefused_readNumber (order : ByteOrder) (offset width : Nat) :
    Unrefused (readNumber order offset width : FileM σ Nat) :=
  (unrefused_readExactAt offset width).bind fun _ _ => confined_pure trivial

/-- To read the count of a directory needs no jump. -/
theorem unrefused_readCount (header : Header) (limits : Limits) (size offset : Nat) :
    Unrefused (readCount header limits size offset : FileM σ Nat) := by
  refine unrefused_size.bind fun _ _ => .guard rfl fun _ => .guard rfl fun _ => ?_
  refine (unrefused_readNumber _ _ _).bind fun _ _ => .guard rfl fun _ => .guard rfl fun _ => ?_
  exact confined_pure trivial

/-- To read the table of a directory needs no jump. -/
theorem unrefused_readTable (header : Header) (limits : Limits) (size start count : Nat) :
    Unrefused (readTable header limits size start count : FileM σ ByteArray) := by
  have hreserve (len : Nat) : Permits (({ limits := limits } : Budget).reserve len) := by
    unfold Budget.reserve
    split
    · exact rfl
    · split
      · split
        · trivial
        · exact rfl
      · exact rfl
  unfold readTable
  cases Word.mul? count header.width.entrySize with
  | none => exact confined_throw rfl
  | some len =>
    refine .guard rfl fun _ => (confined_ofExcept (hreserve len)).bind fun _ _ => ?_
    exact unrefused_readExactAt start len

/-- To read the offset of the next directory needs no jump. -/
theorem unrefused_readNext (header : Header) (size pos : Nat) :
    Unrefused (readNext header size pos : FileM σ (Nat × Bool)) := by
  refine Confined.bind (Q := fun _ => True) ?_ fun stop _ => .ite (fun _ => ?_) fun _ => ?_
  · unfold FileM.sum
    cases Word.add? pos header.width.offsetSize with
    | none => exact confined_throw rfl
    | some stop => exact confined_pure trivial
  · exact (unrefused_readNumber _ _ _).bind fun _ _ => confined_pure trivial
  · exact confined_pure trivial

/-- A directory is never refused for want of jumps by the read itself. -/
theorem unrefused_read (header : Header) (options : Options) (catalog : Catalog) (offset : Nat) :
    Unrefused (read header options catalog offset : FileM σ Directory) := by
  refine unrefused_size.bind fun size _ => (unrefused_readCount _ _ _ _).bind fun count _ => ?_
  refine (unrefused_readTable _ _ _ _ _).bind fun table _ => (unrefused_readNext _ _ _).bind ?_
  rintro ⟨next, nextCut⟩ _
  dsimp only
  cases keepAll header.order header.width options.strict size
    (records header.order header.width table count) with
  | error defect => exact confined_throw rfl
  | ok entries =>
    refine .ite (fun _ => Confined.bind (Q := fun _ => True) (confined_ofExcept ?_) fun _ _ => ?_)
      fun _ => confined_pure trivial
    · unfold checkCounts
      split
      · exact rfl
      · trivial
    · exact confined_pure trivial

end Directory

/-- To read a list of numbers needs no jump. -/
theorem Entry.unrefused_readUnsignedList (order : ByteOrder) (limits : Limits) (e : Entry) :
    Unrefused (e.readUnsignedList order limits : FileM σ (List Nat)) := by
  have hinline : Permits e.inlineBytes := by
    unfold inlineBytes
    split
    · trivial
    · split
      · trivial
      · exact rfl
  have hsingle : Permits (limits.checkSingle e.size) := by
    unfold Limits.checkSingle
    split
    · exact rfl
    · trivial
  have hbytes : Unrefused (e.readBytes order limits : FileM σ ByteArray) := by
    refine (confined_ofExcept hinline).bind fun found _ => ?_
    cases found with
    | some bytes => exact confined_pure trivial
    | none =>
      refine (confined_ofExcept hsingle).bind fun _ _ => unrefused_size.bind fun _ _ => ?_
      exact .guard rfl fun _ => unrefused_readExactAt _ _
  refine .guard rfl fun _ => .ite (fun _ => confined_pure trivial) fun _ => ?_
  exact hbytes.bind fun _ _ => confined_pure trivial

end

namespace Browser

/-! ## Calls that are charged -/

/-- How a call ends that is charged a jump: without one left it is refused and changes nothing, and
otherwise the jump is made, also where the call fails. -/
inductive Charged (b : Browser σ) : EStateM.Result Fault (Browser σ) α → Prop
  | refused (hj : b.options.maxJumps ≤ b.jumps) :
      Charged b (.error (.jumpLimit b.options.maxJumps) b)
  | failed {fault stream} (hj : b.jumps < b.options.maxJumps) (hf : fault.isRefusal = false) :
      Charged b (.error fault { b with stream := stream, jumps := b.jumps + 1 })
  | made {a b'} (hj : b.jumps < b.options.maxJumps) (hb : b'.jumps = b.jumps + 1) :
      Charged b (.ok a b')

variable {b : Browser σ}

/-- What is done with the result of a call charges nothing more. -/
theorem Charged.bind {x : FileM (Browser σ) α} (h : Charged b (x b))
    {f : α → FileM (Browser σ) β} {g : α → β} (hf : ∀ a b', f a b' = .ok (g a) b') :
    Charged b ((x >>= f) b) := by
  cases hx : x b with
  | error fault b' =>
    rw [bind_of_error hx]
    rw [hx] at h
    cases h with
    | refused hj => exact .refused hj
    | failed hj hr => exact .failed hj hr
  | ok a b' =>
    rw [bind_of_ok hx, hf]
    rw [hx] at h
    cases h with
    | made hj hb => exact .made hj hb

/-- A call is charged if it takes a jump and does after that what takes none. -/
theorem charged_takeJump {rest : FileM (Browser σ) α}
    (h : ∀ b : Browser σ, Ends rest b (fun _ b' => b'.jumps = b.jumps) fun fault b' =>
      (∃ stream, b' = { b with stream := stream }) ∧ fault.isRefusal = false) :
    Charged b ((takeJump >>= fun _ => rest) b) := by
  by_cases hj : b.options.maxJumps ≤ b.jumps
  · have ht : takeJump b = .error (.jumpLimit b.options.maxJumps) b := if_pos hj
    rw [bind_of_error ht]
    exact .refused hj
  · have ht : takeJump b = .ok ⟨⟩ { b with jumps := b.jumps + 1 } := if_neg hj
    rw [bind_of_ok ht]
    have hrest := h { b with jumps := b.jumps + 1 }
    cases hr : rest { b with jumps := b.jumps + 1 } with
    | ok a b' => exact .made (Nat.lt_of_not_le hj) (hrest.ok hr)
    | error fault b' =>
      obtain ⟨⟨stream, rfl⟩, hf⟩ := hrest.error hr
      exact .failed (Nat.lt_of_not_le hj) hf

/-- The call changes nothing but the stream, and it is not for want of jumps that it fails. -/
def JustReads (call : FileM (Browser σ) α) : Prop :=
  ∀ b, Ends call b (fun _ b' => ∃ stream, b' = { b with stream := stream })
    fun fault b' => (∃ stream, b' = { b with stream := stream }) ∧ fault.isRefusal = false

/-- A call on the stream that needs no jump just reads. -/
theorem justReads_onStream {call : FileM σ α} (h : Unrefused call) : JustReads (onStream call) := by
  intro b
  refine .of_part (fun s => { b with stream := s }) (fun hc => ?_) (fun hc => ?_)
    ((h b.stream trivial).mono ?_ ?_)
  · rw [onStream, hc]
  · rw [onStream, hc]
  · exact fun _ s _ => ⟨s, rfl⟩
  · exact fun _ s hf => ⟨⟨s, rfl⟩, hf.2⟩

variable [Stream σ]

/-- A directory that is read just changes the stream. -/
theorem justReads_directoryAt (offset : Nat) :
    JustReads (directoryAt offset : FileM (Browser σ) Directory) := fun b =>
  (justReads_onStream (Directory.unrefused_read b.header b.options b.catalog offset) b).congr rfl

/-- A list of numbers that is read just changes the stream. -/
theorem justReads_readUnsignedList (e : Entry) :
    JustReads (readUnsignedList e : FileM (Browser σ) (List Nat)) := fun b =>
  (justReads_onStream (e.unrefused_readUnsignedList b.header.order b.options.limits) b).congr rfl

/-- A jump is charged before the directory is read. -/
theorem jumpTo_charged (offset : Nat) : Charged b (jumpTo offset b) := by
  refine charged_takeJump fun b => (justReads_directoryAt offset b).bind ?_
  rintro d b' ⟨stream, rfl⟩
  exact rfl

/-- An entry that names no sub-directory is refused before anything is charged. -/
theorem enter_of_not_isSubDirectory {e : Entry} (h : e.isSubDirectory = false) (index : Nat) :
    enter e index b = .error (.notSubDirectory e.tag) b := by
  unfold enter
  rw [h]
  rfl

/-- The way into a sub-directory is charged before the offsets of the field are read. -/
theorem enter_charged {e : Entry} (h : e.isSubDirectory = true) (index : Nat) :
    Charged b (enter e index b) := by
  unfold enter
  rw [h, Bool.not_true, if_neg Bool.false_ne_true]
  refine charged_takeJump fun b => (justReads_readUnsignedList e b).bind ?_
  rintro offsets _ ⟨stream, rfl⟩
  cases offsets[index]? with
  | none => exact ends_throw.2 ⟨⟨stream, rfl⟩, rfl⟩
  | some offset =>
    refine (justReads_directoryAt offset { b with stream := stream }).mono ?_ ?_
    · rintro d _ ⟨stream, rfl⟩
      exact rfl
    · rintro fault _ ⟨⟨stream, rfl⟩, hf⟩
      exact ⟨⟨stream, rfl⟩, hf⟩

namespace Call

/-- Whether the call is one that is charged: a jump to an offset, or a descent into an entry that
holds offsets of sub-directories. -/
def asksJump (b : Browser σ) : Call → Bool
  | jump _ => true
  | enter e _ => e.isSubDirectory
  | subDirectory tag _ => (b.currentField? tag).any Entry.isSubDirectory
  | _ => false

/-- Whether the call begins the walk along the chain anew. -/
def isBeginning : Call → Bool
  | rewind | goTo _ => true
  | _ => false

/-- Whether the call is refused because no jump is left. -/
def isRefused (b : Browser σ) (call : Call) : Bool :=
  match call.run b with
  | .error fault _ => fault.isRefusal
  | .ok _ _ => false

/-- Every call that asks for a jump is charged for one, whatever comes of it. -/
theorem run_charged {call : Call} (h : call.asksJump b) : Charged b (call.run b) := by
  cases call with
  | jump offset => exact (jumpTo_charged offset).bind fun _ _ => rfl
  | enter e index => exact (enter_charged h index).bind fun _ _ => rfl
  | subDirectory tag index =>
    obtain ⟨e, he, hs⟩ := (Option.any_eq_true _ _).1 h
    have hfound : Charged b ((Browser.subDirectory tag index : FileM _ (Option Directory)) b) := by
      rw [Browser.subDirectory, get_bind, he]
      exact (enter_charged hs index).bind fun _ _ => rfl
    refine hfound.bind (g := fun found => found.elim .nothing .directory) fun found b' => ?_
    cases found <;> rfl
  | _ => cases h

end Call

/-! ## Calls that are not charged -/

/-- A step along the chain makes no jump. -/
theorem jumps_next : (leaves next b).jumps = b.jumps := by
  have hn := b.next_steps
  unfold leaves
  generalize next b = r at hn
  cases hn with
  | stopped | held | failed => rfl
  | arrived =>
    dsimp only
    unfold arrive
    split <;> rfl

/-- Steps along the chain make no jump. -/
theorem jumps_afterSteps (n : Nat) : (b.afterSteps n).jumps = b.jumps := by
  induction n generalizing b with
  | zero => rfl
  | succ n ih => rw [afterSteps, ih, jumps_next]

/-- A descent into an entry that holds no offsets of sub-directories changes nothing. -/
theorem leaves_enter {e : Entry} (h : e.isSubDirectory = false) (index : Nat) :
    leaves (enter e index) b = b :=
  leaves_of_error (enter_of_not_isSubDirectory h index)

/-- A field that names no sub-directory, or is missing, changes nothing. -/
theorem leaves_subDirectory {tag : TagId}
    (h : (b.currentField? tag).any Entry.isSubDirectory = false) (index : Nat) :
    leaves (subDirectory tag index) b = b := by
  unfold leaves
  rw [subDirectory, get_bind]
  cases he : b.currentField? tag with
  | none => rfl
  | some e =>
    rw [he] at h
    dsimp only
    rw [bind_of_error (enter_of_not_isSubDirectory h index)]

namespace Call

/-- A call that only reads makes no jump. -/
theorem jumps_of_isRead {call : Call} (h : call.isRead) : (leaves call.run b).jumps = b.jumps := by
  obtain ⟨stream, hs⟩ := run_read (b := b) h
  rw [hs]

/-- A call that is not charged leaves the number of jumps, unless it begins the walk anew. -/
theorem jumps_of_not_asksJump {call : Call} (h : call.asksJump b = false)
    (hb : call.isBeginning = false) : (leaves call.run b).jumps = b.jumps := by
  cases call with
  | rewind | goTo => cases hb
  | jump => cases h
  | next => rw [leaves_next, jumps_next]
  | enter e index =>
    exact congrArg Browser.jumps ((leaves_return _ _).trans (leaves_enter h index))
  | subDirectory tag index =>
    exact congrArg Browser.jumps ((leaves_answerFound _).trans (leaves_subDirectory h index))
  | register d =>
    rw [run, leaves_bind]
    unfold Browser.register
    cases b.catalog.register d <;> rfl
  | _ => exact jumps_of_isRead rfl

/-- A call that begins the walk anew begins the count of jumps anew. -/
theorem jumps_of_isBeginning {call : Call} (h : call.isBeginning) :
    (leaves call.run b).jumps = 0 := by
  cases call with
  | rewind => rfl
  | goTo index =>
    rw [leaves_goTo, jumps_afterSteps]
    rfl
  | _ => cases h

/-- How many jumps were granted since the last beginning, after a call, when they were `n`
before. -/
def granted (b : Browser σ) (n : Nat) (call : Call) : Nat :=
  if call.isBeginning then 0
  else if call.asksJump b && !call.isRefused b then n + 1
  else n

/-- One call keeps the count of jumps right, and within the limit. -/
theorem jumps_granted (hb : b.jumps ≤ b.options.maxJumps) (call : Call) :
    (leaves call.run b).jumps = call.granted b b.jumps ∧
      (leaves call.run b).jumps ≤ b.options.maxJumps := by
  unfold granted
  by_cases hbegin : call.isBeginning
  · rw [jumps_of_isBeginning hbegin, if_pos hbegin]
    exact ⟨rfl, Nat.zero_le _⟩
  · rw [if_neg hbegin]
    cases hask : call.asksJump b with
    | false =>
      rw [jumps_of_not_asksJump hask (Bool.eq_false_iff.2 hbegin)]
      exact ⟨rfl, hb⟩
    | true =>
      have hcharged := run_charged hask
      unfold isRefused leaves
      generalize call.run b = r at hcharged
      cases hcharged with
      | refused hj => exact ⟨rfl, hb⟩
      | failed hj hf => simpa [hf] using Nat.succ_le_of_lt hj
      | made hj hmade => simpa [hmade] using Nat.succ_le_of_lt hj

end Call

/-! ## Runs of calls -/

/-- How many jumps were granted since the last beginning, after some calls, when they were `n`
before. -/
def grantedAfter : List Call → Browser σ → Nat → Nat
  | [], _, n => n
  | call :: calls, b, n => grantedAfter calls (leaves call.run b) (call.granted b n)

/-- After any calls the jumps are those that were granted, and within the limit. -/
theorem jumps_afterCalls (hb : b.jumps ≤ b.options.maxJumps) (calls : List Call) :
    (b.afterCalls calls).jumps = grantedAfter calls b b.jumps ∧
      (b.afterCalls calls).jumps ≤ b.options.maxJumps := by
  induction calls generalizing b with
  | nil => exact ⟨rfl, hb⟩
  | cons call calls ih =>
    obtain ⟨hjumps, hle⟩ := call.jumps_granted hb
    have hoptions := (call.run_file (b := b)).2
    have hrest := ih (hoptions ▸ hle)
    rw [hjumps, hoptions] at hrest
    exact hrest

/-- Two browsers are at the same place, with the same offsets behind them and the same reason to
stop. -/
structure SamePlace (b b' : Browser σ) : Prop where
  current : b'.current = b.current
  index : b'.index = b.index
  chain : b'.chain = b.chain
  visited : b'.visited = b.visited
  stop : b'.stop = b.stop

/-- No call but a move touches the place, nor does a jump that fails. Of the calls that are charged
`n` were granted a jump, never more than the limit, and at the limit every further one is refused
and changes nothing. -/
structure Guarded (limit n : Nat) (b : Browser σ) : Prop where
  aside : ∀ call : Call, call.isMove = false → SamePlace b (leaves call.run b)
  missed : ∀ offset fault b', jumpTo offset b = .error fault b' → SamePlace b b'
  granted : b.jumps = n
  bound : b.jumps ≤ limit
  spent : b.jumps = limit →
    ∀ call : Call, call.asksJump b → call.run b = .error (.jumpLimit limit) b

/-- A call that is no move changes the stream, the catalog and the jumps at most. -/
theorem samePlace_of_not_isMove {call : Call} (h : call.isMove = false) :
    SamePlace b (leaves call.run b) := by
  obtain ⟨stream, catalog, jumps, hleaves⟩ := call.run_quiet (b := b) h
  rw [hleaves]
  exact ⟨rfl, rfl, rfl, rfl, rfl⟩

/-- A jump that fails does so before the place is changed. -/
theorem samePlace_of_jumpTo_error {offset : Nat} {fault : Fault} {b' : Browser σ}
    (h : jumpTo offset b = .error fault b') : SamePlace b b' := by
  have hj := b.jumpTo_jumps offset
  rw [h] at hj
  cases hj with
  | refused => exact ⟨rfl, rfl, rfl, rfl, rfl⟩
  | failed => exact ⟨rfl, rfl, rfl, rfl, rfl⟩

/-- With no jump left a call that is charged is refused, and changes nothing. -/
theorem run_eq_jumpLimit (hb : b.options.maxJumps ≤ b.jumps) {call : Call}
    (h : call.asksJump b) : call.run b = .error (.jumpLimit b.options.maxJumps) b := by
  have hcharged := Call.run_charged h
  generalize call.run b = r at hcharged
  cases hcharged with
  | refused => rfl
  | failed hj | made hj => exact absurd hj (Nat.not_lt.2 hb)

/-- After any run of calls on a file that was opened, the calls that are to leave the place alone
do so, and the jumps are those that were granted since the last beginning. -/
theorem guarded_afterCalls {stream : σ} {options : Options} {catalog : Catalog}
    (ho : Browser.ofStream stream options catalog = .ok b) (calls : List Call) :
    Guarded options.maxJumps (grantedAfter calls b 0) (b.afterCalls calls) := by
  have hopened : b.options = options ∧ b.jumps = 0 := by
    obtain ⟨header, s, -, rfl⟩ := ofStream_eq_ok ho
    exact ⟨rfl, rfl⟩
  have hoptions := (afterCalls_file (b := b) calls).2.trans hopened.1
  have hjumps := jumps_afterCalls (b := b) (hopened.2 ▸ Nat.zero_le _) calls
  rw [hopened.1, hopened.2] at hjumps
  refine ⟨fun call => samePlace_of_not_isMove, fun offset fault b' => samePlace_of_jumpTo_error,
    hjumps.1, hjumps.2, fun hspent call hask => ?_⟩
  have hrun := run_eq_jumpLimit (by rw [hoptions]; exact Nat.le_of_eq hspent.symm) hask
  rwa [hoptions] at hrun

/-- A classic file with one directory, at 8, whose only field names the directory at 26. -/
def oneDescent : ByteArray := ⟨#[
  0x49, 0x49, 42, 0, 8, 0, 0, 0,
  1, 0, 74, 1, 13, 0, 1, 0, 0, 0, 26, 0, 0, 0, 0, 0, 0, 0,
  1, 0, 0, 1, 3, 0, 1, 0, 0, 0, 100, 0, 0, 0, 0, 0, 0, 0]⟩

/-- A descent and a jump to where there is no directory use two jumps up, one through a field that
there is not uses none, and the jump that comes last is refused. -/
theorem guarded_afterCalls_oneDescent :
    ∃ b, Browser.ofStream (Memory.ofBytes oneDescent) { maxJumps := 2 } .standard = .ok b ∧
      grantedAfter [.next, .subDirectory 330 0, .subDirectory 256 0, .jump 5, .jump 26] b 0 = 2 ∧
      Guarded 2 2
        (b.afterCalls [.next, .subDirectory 330 0, .subDirectory 256 0, .jump 5, .jump 26]) := by
  obtain ⟨b, ho, hn⟩ :
      ∃ b, Browser.ofStream (Memory.ofBytes oneDescent) { maxJumps := 2 } .standard = .ok b ∧
        grantedAfter [.next, .subDirectory 330 0, .subDirectory 256 0, .jump 5, .jump 26] b 0 =
          2 := by
    decide +kernel
  exact ⟨b, ho, hn, hn ▸ guarded_afterCalls ho _⟩

end Browser

end TaggedImage
