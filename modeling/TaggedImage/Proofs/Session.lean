import TaggedImage.Browser.Units
import TaggedImage.Proofs.Confinement
import TaggedImage.Proofs.MemoryContent
import TaggedImage.Proofs.Walk

/-!
# Sessions with a file

A `Session` is an open file with the directories and layouts that calls have answered so far, and a
`Request` is a call that may refer to them. On a stream that serves its content and refuses all
else, whatever its bytes, no request fails because the stream refuses a range
(`Session.run_confined`), and units and values are the bytes that the file declares.
-/

namespace TaggedImage

open FileM

variable {σ : Type} {P : σ → Prop} {content : ByteArray}

/-! ## Headers -/

/-- A number of a window is refused for a reason of the file. -/
theorem Window.answers_number {w : Window} {offset : Nat} (h : w.base + offset ≤ Word.max)
    (width : Nat) : Answers (Fault.IsOwn content) (fun _ => True) (w.number offset width) :=
  (answers_slice h width).bind fun _ _ => trivial

/-- A header is refused for a reason of the file. -/
theorem Header.answers_parse (bytes : ByteArray) :
    Answers (Fault.IsOwn content) (fun _ => True) (parse bytes) := by
  unfold parse
  refine .guard trivial fun _ => ?_
  dsimp only
  split
  · trivial
  · -- the window starts with the file, so that all positions are words
    have hnumber {order : ByteOrder} {offset : Nat} (ho : offset ≤ 8) (width : Nat) :
        Answers (Fault.IsOwn content) (fun _ => True)
          (Window.number ⟨bytes, order, 0⟩ offset width) :=
      Window.answers_number (show 0 + offset ≤ _ from by unfold Word.max; omega) width
    refine (hnumber (by decide) 2).bind fun version _ => ?_
    split
    · refine .guard trivial fun _ => ?_
      exact (hnumber (by decide) 4).bind fun _ _ => trivial
    · split
      · refine .guard trivial fun _ => (hnumber (by decide) 2).bind fun _ _ => ?_
        refine .guard trivial fun _ => ?_
        exact (hnumber (by decide) 8).bind fun _ _ => trivial
      · trivial

/-- A file is opened or refused for a reason of its own. -/
theorem Browser.readHeader_confined [Stream σ] (hP : Serves P content) (strict : Bool) :
    Confined P (Fault.IsOwn content) (readHeader strict) (fun _ => True) := by
  refine (readHeader_gives hP strict).confined ?_
  unfold headerIn
  split
  · refine (Header.answers_parse _).bind fun header _ => ?_
    split
    · refine (Window.answers_number (show 0 + 6 ≤ Word.max by decide) 2).bind fun _ _ => ?_
      exact .guard trivial fun _ => trivial
    · trivial
  · exact Header.answers_parse _

namespace Browser

/-! ## Calls of a browser -/

/-- The browser reads the file with this header and these options, its stream is in a state of `P`,
and the fields of its current directory have known sizes. -/
structure Intact (P : σ → Prop) (header : Header) (options : Options) (b : Browser σ) : Prop where
  stream : P b.stream
  header : b.header = header
  options : b.options = options
  current : ∀ d, b.current = some d → d.Sized

variable {header : Header} {options : Options}

/-- A call on the stream is confined in the browser as it is on the stream. -/
theorem onStream_confined {α : Type} {F : Fault → Prop} {Q : α → Prop} {call : FileM σ α}
    (h : Confined P F call Q) : Confined (Intact P header options) F (onStream call) Q := by
  intro b hb
  refine .of_part (fun s => { b with stream := s }) (fun hc => ?_) (fun hc => ?_)
    ((h b.stream hb.stream).mono ?_ ?_)
  · rw [onStream, hc]
  · rw [onStream, hc]
  · rintro a s ⟨hs, ha⟩
    exact ⟨⟨hs, hb.header, hb.options, hb.current⟩, ha⟩
  · rintro fault s ⟨hs, hf⟩
    exact ⟨⟨hs, hb.header, hb.options, hb.current⟩, hf⟩

/-- A jump that is refused is a fault of its own. -/
theorem takeJump_confined :
    Confined (Intact P header options) (Fault.IsOwn content) takeJump (fun _ => True) := by
  intro b hb
  unfold Ends takeJump
  split <;> rename_i h <;> split at h <;> cases h
  · exact ⟨⟨hb.stream, hb.header, hb.options, hb.current⟩, trivial⟩
  · exact ⟨hb, trivial⟩

/-- A call that looks up a tag of the current directory finds a field of known size. -/
theorem Intact.field {b : Browser σ} (hb : Intact P header options b) {tag : TagId} {e : Entry}
    (he : b.currentField? tag = some e) : e.Sized := by
  obtain ⟨d, hd, he⟩ := Option.bind_eq_some_iff.1 he
  exact Directory.sized_of_get? (hb.current d hd) he

variable [Stream σ]

/-- A directory is read as it is from the stream. -/
theorem directoryAt_confined (hP : Serves P content) (offset : Nat) :
    Confined (Intact P header options) (Fault.IsOwn content) (directoryAt offset) Directory.Sized :=
  fun b hb =>
    (onStream_confined (Directory.read_confined hP b.header b.options b.catalog offset) b hb).congr
      rfl

/-- A step of the walk raises the fault of the directory that it cannot read, and no other. -/
theorem next_confined (hP : Serves P content) :
    Confined (Intact P header options) (Fault.IsOwn content) next
      (fun found => ∀ d, found = some d → d.Sized) := by
  intro b hb
  cases hst : b.stop with
  | some reason =>
    have hn : next b = .ok none b := by
      simp only [next, hst, Option.isSome_some, if_true]
    exact .of_ok hn ⟨hb, fun _ h => by cases h⟩
  | none =>
    obtain ⟨⟨offset, place⟩, hsu⟩ : ∃ successor, b.successor = successor := ⟨_, rfl⟩
    cases ho : b.obstacle? offset place with
    | some reason =>
      have hstopped : Intact P header options
          { b with started := true, stop := some reason } :=
        ⟨hb.stream, hb.header, hb.options, hb.current⟩
      exact .of_ok (next_stop hst hsu ho) ⟨hstopped, fun _ h => by cases h⟩
    | none =>
      have hn := next_reads hst hsu ho
      have hd := directoryAt_confined hP offset b hb
      cases hr : directoryAt offset b with
      | error fault b' =>
        rw [hr] at hn
        obtain ⟨hb', hf⟩ := hd.error hr
        exact .of_error hn ⟨⟨hb'.stream, hb'.header, hb'.options, hb'.current⟩, hf⟩
      | ok d b' =>
        rw [hr] at hn
        obtain ⟨hb', hf⟩ := hd.ok hr
        have hcur : ∀ d', some d = some d' → d'.Sized := fun d' hd' => Option.some.inj hd' ▸ hf
        refine .of_ok hn ⟨?_, hcur⟩
        unfold arrive
        split
        · exact ⟨hb'.stream, hb'.header, hb'.options, hcur⟩
        · exact ⟨hb'.stream, hb'.header, hb'.options, hcur⟩

/-- Several steps along the chain are confined as each of them is; they may end before they come to
the place that is wanted. -/
theorem advance_confined (hP : Serves P content) (index n : Nat) :
    Confined (Intact P header options) (Fault.IsOwn content) (advance index n) Directory.Sized := by
  induction n with
  | zero =>
    intro b hb
    cases hc : b.current with
    | none =>
      refine .of_error (e := .geometry .noDirectory) (t := b) ?_ ⟨hb, trivial⟩
      rw [advance, get_bind, hc]
      rfl
    | some d =>
      refine .of_ok (a := d) (t := b) ?_ ⟨hb, hb.current d hc⟩
      rw [advance, get_bind, hc]
      rfl
  | succ n ih =>
    refine (next_confined hP).bind fun found _ => ?_
    cases found with
    | some d => exact ih
    | none =>
      intro b hb
      rw [ends_get_bind]
      split
      · exact ⟨hb, trivial⟩
      · exact ⟨hb, trivial⟩

/-- A walk from the start begins with the same file. -/
theorem goTo_confined (hP : Serves P content) (index : Nat) :
    Confined (Intact P header options) (Fault.IsOwn content) (goTo index) Directory.Sized := by
  intro b hb
  rw [goTo, ends_modify_bind]
  exact advance_confined hP index (index + 1) _ ⟨hb.stream, hb.header, hb.options, nofun⟩

/-- The directories that an enumeration answers, and the fault at its end if there is one. -/
theorem walk_confined (hP : Serves P content) (visited : List Nat) (offset n : Nat) :
    Confined (Intact P header options) (Fault.IsOwn content) (walk visited offset n)
      (fun rs => ∀ r ∈ rs, Answers (Fault.IsOwn content) Directory.Sized r) := by
  induction n generalizing visited offset with
  | zero => exact confined_pure nofun
  | succ n ih =>
    refine .ite (fun _ => confined_pure nofun) fun _ => ?_
    refine (directoryAt_confined hP offset).attempt.bind fun r hr => ?_
    cases r with
    | error fault =>
      refine confined_pure fun r hm => ?_
      cases List.mem_singleton.1 hm
      exact hr
    | ok d =>
      refine (ih _ _).bind fun rs hrs => confined_pure fun r hm => ?_
      rcases List.mem_cons.1 hm with rfl | hm
      · exact hr
      · exact hrs r hm

/-- A list of the chain holds directories and faults of the file. -/
theorem enumerate_confined (hP : Serves P content) (most : Nat) :
    Confined (Intact P header options) (Fault.IsOwn content) (enumerate most)
      (fun rs => ∀ r ∈ rs, Answers (Fault.IsOwn content) Directory.Sized r) :=
  fun b hb => walk_confined hP _ _ _ b hb

omit [Stream σ] in
/-- Where the content holds the count, the next offset is found or cut off. -/
theorem answers_nextOffsetIn (offset : Nat) :
    Answers (·.stops = false) (fun _ => True) (nextOffsetIn header content offset) := by
  unfold nextOffsetIn
  dsimp only
  split
  · rfl
  · split
    · rfl
    · trivial

/-- The next offset is read without a check of where the count lies, so the stream has to refuse
what it does not have. -/
theorem nextOffset_confined (hP : Serves P content) (hR : Refuses P content) (header : Header)
    (offset : Nat) :
    Confined P (·.stops = false) (nextOffset header offset) (fun _ => True) := by
  intro s hs
  by_cases hr : offset + header.width.countSize ≤ content.size
  · exact (nextOffset_gives hP header (hR.word hs) hr).confined (answers_nextOffsetIn offset) s hs
  · obtain ⟨t, ht, hsize⟩ := gives_size hP s hs
    obtain ⟨e, s', hne, hs', he⟩ :=
      hR.read offset header.width.countSize ht (Nat.lt_of_not_le hr)
    refine .of_error (e := .stream e) (t := s') ?_ ⟨hs', Fault.stops_stream hne⟩
    refine (bind_of_ok hsize).trans (bind_of_error (bind_of_error ?_))
    rw [FileM.readExactAt, FileM.ofStream, he]

/-- The directories are counted whatever stands in the file. -/
theorem count_confined (hP : Serves P content) (hR : Refuses P content) :
    Confined (Intact P header options) (Fault.IsOwn content) count (fun _ => True) := by
  have hfrom (visited : List Nat) (offset n : Nat) :
      Confined (Intact P header options) (Fault.IsOwn content) (countFrom visited offset n)
        (fun _ => True) := by
    induction n generalizing visited offset with
    | zero => exact confined_pure trivial
    | succ n ih =>
      refine .ite (fun _ => confined_pure trivial) fun _ b hb => ?_
      refine ((onStream_confined (nextOffset_confined hP hR b.header offset)).attempt_caught.bind
        fun r _ => ?_) b hb
      cases r with
      | error fault => exact confined_pure trivial
      | ok next => exact ih _ _
  exact fun b hb => hfrom _ _ _ b hb

/-! ## Jumps and fields -/

/-- A jump raises the fault of the directory that it leads to. -/
theorem jumpTo_confined (hP : Serves P content) (offset : Nat) :
    Confined (Intact P header options) (Fault.IsOwn content) (jumpTo offset) Directory.Sized := by
  refine takeJump_confined.bind fun _ _ => (directoryAt_confined hP offset).bind fun d hd b hb => ?_
  rw [ends_modify_bind]
  exact ⟨⟨hb.stream, hb.header, hb.options, fun d' hd' => Option.some.inj hd' ▸ hd⟩, hd⟩

/-- A list of numbers is read as it is from the stream. -/
theorem readUnsignedList_confined (hP : Serves P content) (e : Entry) :
    Confined (Intact P header options) (Fault.IsOwn content) (readUnsignedList e)
      (fun ns => e.Sized → ns.length = e.count) :=
  fun b hb => (onStream_confined (e.readUnsignedList_confined hP) b hb).congr rfl

/-- A value is read as it is from the stream. -/
theorem readValue_confined (hP : Serves P content) (e : Entry) :
    Confined (Intact P header options) (Fault.IsOwn content) (readValue e)
      (fun v => e.Sized → e.HasValue header.order options.limits content v) := by
  intro b hb
  refine (onStream_confined (e.readValue_confined hP) b hb).congr ?_
  rw [readValue, hb.header, hb.options]

/-- A sub-directory is entered with faults of the entry, the jump, or the directory that it names.
-/
theorem enter_confined (hP : Serves P content) (e : Entry) (index : Nat) :
    Confined (Intact P header options) (Fault.IsOwn content) (enter e index) Directory.Sized := by
  refine .guard trivial fun _ => takeJump_confined.bind fun _ _ => ?_
  refine (readUnsignedList_confined hP e).bind fun offsets _ => ?_
  split
  · exact confined_throw trivial
  · exact directoryAt_confined hP _

/-- A sub-directory of a field of the current directory is entered, if there is such a field. -/
theorem subDirectory_confined (hP : Serves P content) (tag : TagId) (index : Nat) :
    Confined (Intact P header options) (Fault.IsOwn content) (subDirectory tag index)
      (fun found => ∀ d, found = some d → d.Sized) := by
  intro b hb
  rw [subDirectory, ends_get_bind]
  split
  · exact ⟨hb, nofun⟩
  · refine ((enter_confined hP _ index).bind fun d hd => confined_pure fun d' hd' => ?_) b hb
    exact Option.some.inj hd' ▸ hd

/-- The offsets of the sub-directories are read as any list of numbers. -/
theorem subDirectoryOffsets_confined (hP : Serves P content) :
    Confined (Intact P header options) (Fault.IsOwn content) subDirectoryOffsets
      (fun _ => True) := by
  intro b hb
  rw [subDirectoryOffsets, ends_get_bind]
  split
  · exact ⟨hb, trivial⟩
  · exact (readUnsignedList_confined hP _).mono (fun _ _ => trivial) (fun _ => id) b hb

/-- The value of a field of the current directory. -/
theorem fieldValue_ends (hP : Serves P content) (tag : TagId) {b : Browser σ}
    (hb : Intact P header options b) :
    Ends (fieldValue tag) b
      (fun found b' => Intact P header options b' ∧ ∀ e v, b.currentField? tag = some e →
        found = some v → e.HasValue header.order options.limits content v)
      (fun fault b' => Intact P header options b' ∧ fault.IsOwn content) := by
  rw [fieldValue, ends_get_bind]
  split
  · exact ⟨hb, fun _ _ _ hv => by cases hv⟩
  · next e he =>
    refine ((readValue_confined hP e).bind (R := fun found => ∀ e' v,
      b.currentField? tag = some e' → found = some v →
        e'.HasValue header.order options.limits content v) fun v hv => confined_pure ?_) b hb
    rintro e' v' he' ⟨⟩
    cases he.symm.trans he'
    exact hv (hb.field he)

/-- The number of a field is read with faults of its own, under the name of its tag. -/
theorem fieldUnsigned_confined (hP : Serves P content) (tag : TagId) :
    Confined (Intact P header options) (Fault.IsOwn content) (fieldUnsigned tag)
      (fun _ => True) := by
  intro b hb
  rw [fieldUnsigned, ends_get_bind]
  dsimp only
  split
  · exact ⟨hb, trivial⟩
  · next e _ =>
    have hcall : Confined (Intact P header options) (Fault.IsOwn content)
        (onStream (e.readUnsigned b.header.order b.options.limits)) (fun _ => True) :=
      onStream_confined (e.readUnsigned_confined hP)
    exact ((hcall.mapFault fun _ h => h.forTag _).bind fun _ _ => confined_pure trivial) b hb

/-- The number of a field that has a baseline value is read with faults of its own. -/
theorem fieldUnsignedOrDefault_confined (hP : Serves P content) (tag : TagId) :
    Confined (Intact P header options) (Fault.IsOwn content) (fieldUnsignedOrDefault tag)
      (fun _ => True) := by
  refine (fieldUnsigned_confined hP tag).bind fun found _ => ?_
  cases found <;> exact confined_pure trivial

/-! ## Layouts and units -/

/-- A layout remembers the size of the stream that it was resolved for. -/
theorem layoutOf_confined (hP : Serves P content) (d : Directory) :
    Confined (Intact P header options) (Fault.IsOwn content) (layoutOf d)
      (fun l => l.streamSize = content.size) :=
  fun b hb => (onStream_confined (Layout.resolve_confined hP b.header b.options d) b hb).congr rfl

/-- The layout of the current directory remembers the size of the stream. -/
theorem layout_confined (hP : Serves P content) :
    Confined (Intact P header options) (Fault.IsOwn content) layout
      (fun l => l.streamSize = content.size) := by
  intro b hb
  rw [layout, ends_get_bind]
  split
  · exact layoutOf_confined hP _ b hb
  · exact ⟨hb, trivial⟩

/-- A unit of such a layout lies within the content, so that its bytes are read as declared. -/
theorem rawUnit_confined (hP : Serves P content) {l : Layout} (hl : l.streamSize = content.size)
    (index : Nat) :
    Confined (Intact P header options) (Fault.IsOwn content) (rawUnit l index)
      (l.HasUnit options.limits content index) := by
  refine (confined_ofExcept (l.answers_unitSpan index)).bind ?_
  rintro ⟨offset, length⟩ ⟨ho, hn, hle⟩ b hb
  dsimp only at ho hn hle ⊢
  rw [ends_get_bind, hb.options]
  refine ((confined_ofExcept (Entry.answers_checkSingle length)).bind fun _ hs => ?_) b hb
  have hr : offset + length ≤ content.size := hl ▸ hle
  refine onStream_confined ((gives_readExactAt hP hr).confined ?_)
  have hsize : (content.extract offset (offset + length)).size = length := by
    rw [ByteArray.size_extract]
    omega
  exact ⟨offset, ho, hsize.symm ▸ hn, hsize.symm ▸ hs, by rw [hsize]⟩

/-- What a codec or a predictor cannot decode is a fault of the unit. -/
theorem answers_decodeUnit (l : Layout) (index size : Nat) (codec : Codec) (predictor : Predictor)
    (stored : ByteArray) :
    Answers (Fault.IsOwn content) (fun _ => True)
      (decodeUnit l index size codec predictor stored) := by
  refine (Answers.mapError fun _ => trivial).bind fun data _ => .guard trivial fun _ => ?_
  refine l.answers_unitRowSize.bind fun rowSize _ => ?_
  split
  · trivial
  · exact .mapError fun _ => trivial

/-- A decoded unit has the faults of its bytes and of its decoding. -/
theorem decodedUnit_confined (hP : Serves P content) {l : Layout}
    (hl : l.streamSize = content.size) (index : Nat) (codecs : Codecs) :
    Confined (Intact P header options) (Fault.IsOwn content) (decodedUnit l index codecs)
      (fun _ => True) := by
  refine (confined_ofExcept (l.answers_unitDecodedSize index)).bind fun size _ b hb => ?_
  rw [ends_get_bind]
  refine ((confined_ofExcept (Entry.answers_checkSingle size)).bind fun _ _ => ?_) b hb
  split
  · exact confined_throw trivial
  · exact confined_throw trivial
  · refine (rawUnit_confined hP hl index).bind fun stored _ => confined_ofExcept ?_
    exact answers_decodeUnit _ _ _ _ _ _

end Browser

/-! ## Sessions -/

/-- An open file with the directories and the layouts that were answered so far. -/
structure Session (σ : Type) where
  browser : Browser σ
  directories : List Directory := []
  layouts : List Layout := []

/-- A call. Directories and layouts answered before are named by their place, and an entry by that
of its directory and its own. -/
inductive Request where
  | next
  | rewind
  | jump (offset : Nat)
  | goTo (index : Nat)
  | enumerate (most : Nat)
  | count
  | subDirectory (tag : TagId) (index : Nat)
  | subDirectoryOffsets
  | enter (directory entry index : Nat)
  | field (tag : TagId)
  | unsigned (tag : TagId)
  | unsignedOrDefault (tag : TagId)
  | value (directory entry : Nat)
  | layout
  | layoutOf (directory : Nat)
  | rawUnit (layout index : Nat)
  | decodedUnit (layout index : Nat)
  deriving DecidableEq

/-- What a request is answered with. -/
inductive Answer where
  | nothing
  | directory (d : Directory)
  | directories (rs : List (Except Fault Directory))
  | numbers (ns : List Nat)
  | value (e : Entry) (v : Value)
  | layout (l : Layout)
  | rawUnit (l : Layout) (index : Nat) (data : ByteArray)
  | decodedUnit (data : ByteArray)

/-- Values and stored units are those bytes of the content that the file declares, and an
enumeration holds no fault of the stream. -/
def Answer.Sound (order : ByteOrder) (limits : Limits) (content : ByteArray) : Answer → Prop
  | .value e v => e.HasValue order limits content v
  | .rawUnit l index data => l.HasUnit limits content index data
  | .directories rs => ∀ r ∈ rs, Answers (Fault.IsOwn content) Directory.Sized r
  | _ => True

namespace Session

/-- A call of the browser. -/
def onBrowser {α : Type} (call : FileM (Browser σ) α) : FileM (Session σ) α := fun s =>
  match call s.browser with
  | .ok a browser => .ok a { s with browser := browser }
  | .error fault browser => .error fault { s with browser := browser }

/-- Keeps the directories for later requests. -/
def keep (ds : List Directory) : FileM (Session σ) Unit :=
  modify fun s => { s with directories := s.directories ++ ds }

/-- Answers a directory. -/
def answerDirectory (call : FileM (Browser σ) Directory) : FileM (Session σ) Answer := do
  let d ← onBrowser call
  keep [d]
  return .directory d

/-- Answers a directory if there is one. -/
def answerFound (call : FileM (Browser σ) (Option Directory)) : FileM (Session σ) Answer := do
  match ← onBrowser call with
  | none => return .nothing
  | some d => do
    keep [d]
    return .directory d

/-- Answers a layout. -/
def answerLayout (call : FileM (Browser σ) Layout) : FileM (Session σ) Answer := do
  let l ← onBrowser call
  modify fun s => { s with layouts := s.layouts ++ [l] }
  return .layout l

/-- Goes on with something that was answered before, if it was. -/
def withAnswered {α : Type} (found : Session σ → Option α) (next : α → FileM (Session σ) Answer) :
    FileM (Session σ) Answer := do
  match found (← get) with
  | none => return .nothing
  | some a => next a

/-- The entry at this place of a directory that was answered before. -/
def entryOf? (directory entry : Nat) (s : Session σ) : Option Entry :=
  s.directories[directory]?.bind (·.entries[entry]?)

/-- The browser is intact, and so is what it answered. -/
structure Intact (P : σ → Prop) (content : ByteArray) (header : Header) (options : Options)
    (s : Session σ) : Prop where
  browser : Browser.Intact P header options s.browser
  directories : ∀ d ∈ s.directories, d.Sized
  layouts : ∀ l ∈ s.layouts, l.streamSize = content.size

variable {header : Header} {options : Options}

/-- A call of a session on its browser ends as the call of the browser does. -/
theorem onBrowser_ends {α : Type} {call : FileM (Browser σ) α} {s : Session σ}
    {Q : α → Session σ → Prop} {E : Fault → Session σ → Prop}
    (h : Ends call s.browser (fun a b => Q a { s with browser := b })
      (fun fault b => E fault { s with browser := b })) : Ends (onBrowser call) s Q E := by
  refine .of_part (fun b => { s with browser := b }) (fun hc => ?_) (fun hc => ?_) h
  · rw [onBrowser, hc]
  · rw [onBrowser, hc]

/-- A call of a session on its browser is confined as the call of the browser is. -/
theorem onBrowser_confined {α : Type} {F : Fault → Prop} {Q : α → Prop}
    {call : FileM (Browser σ) α} (h : Confined (Browser.Intact P header options) F call Q) :
    Confined (Intact P content header options) F (onBrowser call) Q :=
  fun s hs => onBrowser_ends ((h s.browser hs.browser).mono
    (fun _ _ ha => ⟨⟨ha.1, hs.directories, hs.layouts⟩, ha.2⟩)
    fun _ _ hf => ⟨⟨hf.1, hs.directories, hs.layouts⟩, hf.2⟩)

/-- Directories with values of known sizes may be kept for later requests. -/
theorem keep_confined {F : Fault → Prop} {ds : List Directory} (h : ∀ d ∈ ds, d.Sized) :
    Confined (Intact P content header options) F (keep ds) (fun _ => True) := by
  intro s hs
  refine ⟨⟨hs.browser, fun d hd => ?_, hs.layouts⟩, trivial⟩
  rcases List.mem_append.1 hd with hd | hd
  · exact hs.directories d hd
  · exact h d hd

/-- A directory that is answered is kept. -/
theorem answerDirectory_confined {call : FileM (Browser σ) Directory}
    (h : Confined (Browser.Intact P header options) (Fault.IsOwn content) call Directory.Sized) :
    Confined (Intact P content header options) (Fault.IsOwn content) (answerDirectory call)
      (Answer.Sound header.order options.limits content) := by
  refine (onBrowser_confined h).bind fun d hd => (keep_confined fun d' hd' => ?_).bind fun _ _ => ?_
  · cases List.mem_singleton.1 hd'
    exact hd
  · exact confined_pure trivial

/-- A directory that is answered is kept, if there is one. -/
theorem answerFound_confined {call : FileM (Browser σ) (Option Directory)}
    (h : Confined (Browser.Intact P header options) (Fault.IsOwn content) call
      (fun found => ∀ d, found = some d → d.Sized)) :
    Confined (Intact P content header options) (Fault.IsOwn content) (answerFound call)
      (Answer.Sound header.order options.limits content) := by
  refine (onBrowser_confined h).bind fun found hd => ?_
  cases found with
  | none => exact confined_pure trivial
  | some d =>
    refine (keep_confined fun d' hd' => ?_).bind fun _ _ => confined_pure trivial
    cases List.mem_singleton.1 hd'
    exact hd d rfl

/-- A layout that is answered is kept; it is one for the size of the content. -/
theorem answerLayout_confined {call : FileM (Browser σ) Layout}
    (h : Confined (Browser.Intact P header options) (Fault.IsOwn content) call
      (fun l => l.streamSize = content.size)) :
    Confined (Intact P content header options) (Fault.IsOwn content) (answerLayout call)
      (Answer.Sound header.order options.limits content) := by
  refine (onBrowser_confined h).bind fun l hl s hs => ?_
  rw [ends_modify_bind]
  refine ⟨⟨hs.browser, hs.directories, fun l' hl' => ?_⟩, trivial⟩
  rcases List.mem_append.1 hl' with hl' | hl'
  · exact hs.layouts l' hl'
  · cases List.mem_singleton.1 hl'
    exact hl

/-- A request for something that was answered before is confined for all that an intact session can
have answered. -/
theorem withAnswered_confined {α : Type} {found : Session σ → Option α}
    {next : α → FileM (Session σ) Answer}
    (h : ∀ s a, Intact P content header options s → found s = some a →
      Confined (Intact P content header options) (Fault.IsOwn content) (next a)
        (Answer.Sound header.order options.limits content)) :
    Confined (Intact P content header options) (Fault.IsOwn content) (withAnswered found next)
      (Answer.Sound header.order options.limits content) := by
  intro s hs
  rw [withAnswered, ends_get_bind]
  split
  · exact ⟨hs, trivial⟩
  · next a ha => exact h s a hs ha s hs

/-- The entries of the directories answered before have values of known sizes. -/
theorem Intact.entry {s : Session σ} (hs : Intact P content header options s)
    {directory entry : Nat} {e : Entry} (he : entryOf? directory entry s = some e) : e.Sized := by
  obtain ⟨d, hd, he⟩ := Option.bind_eq_some_iff.1 he
  exact hs.directories d (List.mem_of_getElem? hd) e (List.mem_of_getElem? he)

variable [Stream σ]

/-- Answers a request. -/
def run (codecs : Codecs) : Request → FileM (Session σ) Answer
  | .next => answerFound Browser.next
  | .rewind => do
    onBrowser (modify Browser.rewound)
    return .nothing
  | .jump offset => answerDirectory (Browser.jumpTo offset)
  | .goTo index => answerDirectory (Browser.goTo index)
  | .enumerate most => do
    let rs ← onBrowser (Browser.enumerate most)
    keep (rs.filterMap (·.toOption))
    return .directories rs
  | .count => do return .numbers [← onBrowser Browser.count]
  | .subDirectory tag index => answerFound (Browser.subDirectory tag index)
  | .subDirectoryOffsets => do return .numbers (← onBrowser Browser.subDirectoryOffsets)
  | .enter directory entry index =>
    withAnswered (entryOf? directory entry) fun e => answerDirectory (Browser.enter e index)
  | .field tag => do
    let s ← get
    match s.browser.currentField? tag, ← onBrowser (Browser.fieldValue tag) with
    | some e, some v => return .value e v
    | _, _ => return .nothing
  | .unsigned tag => do return .numbers (← onBrowser (Browser.fieldUnsigned tag)).toList
  | .unsignedOrDefault tag => do
    return .numbers (← onBrowser (Browser.fieldUnsignedOrDefault tag)).toList
  | .value directory entry =>
    withAnswered (entryOf? directory entry) fun e => do
      return .value e (← onBrowser (Browser.readValue e))
  | .layout => answerLayout Browser.layout
  | .layoutOf directory =>
    withAnswered (·.directories[directory]?) fun d => answerLayout (Browser.layoutOf d)
  | .rawUnit layout index =>
    withAnswered (·.layouts[layout]?) fun l => do
      return .rawUnit l index (← onBrowser (Browser.rawUnit l index))
  | .decodedUnit layout index =>
    withAnswered (·.layouts[layout]?) fun l => do
      return .decodedUnit (← onBrowser (Browser.decodedUnit l index codecs))

/-- Opens a file. -/
def ofStream (stream : σ) (options : Options) (catalog : Catalog) : Except Fault (Session σ) := do
  return { browser := ← Browser.ofStream stream options catalog }

/-- The answers to requests, one after the other. A request that fails does not end the session. -/
def answers (codecs : Codecs) : List Request → Session σ → List (Except Fault Answer)
  | [], _ => []
  | request :: requests, s =>
    match run codecs request s with
    | .ok a s => .ok a :: answers codecs requests s
    | .error fault s => .error fault :: answers codecs requests s

/-- The session after the requests. -/
def after (codecs : Codecs) (requests : List Request) (s : Session σ) : Session σ :=
  requests.foldl (fun s request => leaves (run codecs request) s) s

/-- A request is answered soundly or refused for a reason of the file; only the count of directories
needs a stream that refuses what it does not have. -/
theorem run_confined (hP : Serves P content) (codecs : Codecs) (request : Request)
    (hR : request = .count → Refuses P content) :
    Confined (Intact P content header options) (Fault.IsOwn content) (run codecs request)
      (Answer.Sound header.order options.limits content) := by
  cases request with
  | next => exact answerFound_confined (Browser.next_confined hP)
  | rewind =>
    refine (onBrowser_confined (Q := fun _ => True) fun b hb => ?_).bind
      fun _ _ => confined_pure trivial
    exact ⟨⟨hb.stream, hb.header, hb.options, nofun⟩, trivial⟩
  | jump offset => exact answerDirectory_confined (Browser.jumpTo_confined hP offset)
  | goTo index => exact answerDirectory_confined (Browser.goTo_confined hP index)
  | enumerate most =>
    refine (onBrowser_confined (Browser.enumerate_confined hP most)).bind fun rs hrs => ?_
    refine (keep_confined fun d hd => ?_).bind fun _ _ => confined_pure hrs
    obtain ⟨r, hr, hd⟩ := List.mem_filterMap.1 hd
    cases r with
    | error fault => cases hd
    | ok d' =>
      cases hd
      exact hrs _ hr
  | count =>
    exact (onBrowser_confined (Browser.count_confined hP (hR rfl))).bind
      fun _ _ => confined_pure trivial
  | subDirectory tag index =>
    exact answerFound_confined (Browser.subDirectory_confined hP tag index)
  | subDirectoryOffsets =>
    exact (onBrowser_confined (Browser.subDirectoryOffsets_confined hP)).bind
      fun _ _ => confined_pure trivial
  | enter directory entry index =>
    exact withAnswered_confined fun _ e _ _ =>
      answerDirectory_confined (Browser.enter_confined hP e index)
  | field tag =>
    intro s hs
    rw [run, ends_get_bind]
    refine Ends.bind (Q := fun found s' => Intact P content header options s' ∧
      ∀ e v, s.browser.currentField? tag = some e → found = some v →
        e.HasValue header.order options.limits content v)
      (onBrowser_ends ((Browser.fieldValue_ends hP tag hs.browser).mono
        (fun _ _ hv => ⟨⟨hv.1, hs.directories, hs.layouts⟩, hv.2⟩)
        fun _ _ hf => ⟨⟨hf.1, hs.directories, hs.layouts⟩, hf.2⟩)) ?_
    rintro found s' ⟨hs', hv⟩
    split
    · next e v he => exact ⟨hs', hv e v he rfl⟩
    · exact ⟨hs', trivial⟩
  | unsigned tag =>
    exact (onBrowser_confined (Browser.fieldUnsigned_confined hP tag)).bind
      fun _ _ => confined_pure trivial
  | unsignedOrDefault tag =>
    exact (onBrowser_confined (Browser.fieldUnsignedOrDefault_confined hP tag)).bind
      fun _ _ => confined_pure trivial
  | value directory entry =>
    refine withAnswered_confined fun s e hs he => ?_
    exact (onBrowser_confined (Browser.readValue_confined hP e)).bind
      fun v hv => confined_pure (hv (hs.entry he))
  | layout => exact answerLayout_confined (Browser.layout_confined hP)
  | layoutOf directory =>
    exact withAnswered_confined fun _ d _ _ =>
      answerLayout_confined (Browser.layoutOf_confined hP d)
  | rawUnit layout index =>
    refine withAnswered_confined fun s l hs hl => ?_
    exact (onBrowser_confined (Browser.rawUnit_confined hP
      (hs.layouts l (List.mem_of_getElem? hl)) index)).bind fun _ hd => confined_pure hd
  | decodedUnit layout index =>
    refine withAnswered_confined fun s l hs hl => ?_
    exact (onBrowser_confined (Browser.decodedUnit_confined hP
      (hs.layouts l (List.mem_of_getElem? hl)) index codecs)).bind fun _ _ => confined_pure trivial

/-- The answers of a run of requests, and the session that it leaves. -/
theorem answers_confined (hP : Serves P content) (codecs : Codecs) (requests : List Request)
    (hR : .count ∈ requests → Refuses P content) {s : Session σ}
    (hs : Intact P content header options s) :
    (∀ r ∈ answers codecs requests s,
        Answers (Fault.IsOwn content) (Answer.Sound header.order options.limits content) r) ∧
      Intact P content header options (after codecs requests s) := by
  induction requests generalizing s with
  | nil => exact ⟨fun _ hr => absurd hr List.not_mem_nil, hs⟩
  | cons request requests ih =>
    have hrun := run_confined hP codecs request (fun h => hR (h ▸ .head _)) s hs
    have ih {s : Session σ} := ih (s := s) fun h => hR (.tail _ h)
    rw [after, List.foldl_cons, ← after, answers]
    cases hc : run codecs request s with
    | ok a s' =>
      obtain ⟨hs', ha⟩ := hrun.ok hc
      obtain ⟨hall, hafter⟩ := ih hs'
      rw [leaves_of_ok hc]
      exact ⟨List.forall_mem_cons.2 ⟨ha, hall⟩, hafter⟩
    | error fault s' =>
      obtain ⟨hs', hf⟩ := hrun.error hc
      obtain ⟨hall, hafter⟩ := ih hs'
      rw [leaves_of_error hc]
      exact ⟨List.forall_mem_cons.2 ⟨hf, hall⟩, hafter⟩

/-- A file that opens makes an intact session, and one that does not is refused for a reason of its
own. -/
theorem answers_ofStream (hP : Serves P content) {stream : σ} (hs : P stream) (options : Options)
    (catalog : Catalog) :
    Answers (Fault.IsOwn content) (fun s => Intact P content s.browser.header options s)
      (ofStream stream options catalog) := by
  refine Answers.bind (Q := fun b => Browser.Intact P b.header options b) ?_
    fun b hb => ⟨hb, nofun, nofun⟩
  have h := Browser.readHeader_confined hP options.strict stream hs
  unfold Browser.ofStream
  cases hc : Browser.readHeader options.strict stream with
  | ok header s => exact ⟨(h.ok hc).1, rfl, rfl, nofun⟩
  | error fault s => exact (h.error hc).2

end Session

end TaggedImage
