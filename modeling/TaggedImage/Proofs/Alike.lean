import TaggedImage.Browser.Units
import TaggedImage.Proofs.Walk

/-!
# Calls on streams that answer alike

Two streams of different types echo each other if related states have the same size and give the
same answer to every exact read (`FileM.Echoes`). `FileM.Matches` carries this over to calls: from
related states they end with the same result or the same fault, in related states again. It holds of
every call that reads a directory, a value or a layout, and of every call of a browser. The relation
between two browsers (`Browser.Twin`) can hold a property of the first one along, which shows what a
call leaves alone.
-/

namespace TaggedImage

variable {σ τ α β : Type}

namespace FileM

/-- The state that two steps leave is that of the second one, or of the first if that fails. -/
theorem leaves_bind (x : FileM σ α) (f : α → FileM σ β) (s : σ) :
    leaves (x >>= f) s = match x s with | .ok a s' => leaves (f a) s' | .error _ s' => s' := by
  unfold leaves
  cases h : x s with
  | ok a s' => rw [bind_of_ok h]
  | error fault s' => rw [bind_of_error h]

/-- Two calls ended alike: with the same result or the same fault, in related states. -/
inductive Alike (R : σ → τ → Prop) : EStateM.Result Fault σ α → EStateM.Result Fault τ α → Prop
  | ok {a : α} {s : σ} {t : τ} (h : R s t) : Alike R (.ok a s) (.ok a t)
  | error {fault : Fault} {s : σ} {t : τ} (h : R s t) : Alike R (.error fault s) (.error fault t)

/-- Calls that end alike leave related states. -/
theorem Alike.leaves {R : σ → τ → Prop} {x : FileM σ α} {y : FileM τ α} {s : σ} {t : τ}
    (h : Alike R (x s) (y t)) : R (leaves x s) (leaves y t) := by
  unfold FileM.leaves
  generalize x s = rx, y t = ry at h
  cases h with
  | ok h => exact h
  | error h => exact h

/-- From related states the two calls end alike. -/
def Matches (R : σ → τ → Prop) (x : FileM σ α) (y : FileM τ α) : Prop :=
  ∀ s t, R s t → Alike R (x s) (y t)

variable {R : σ → τ → Prop}

/-- The same value returned on both sides matches. -/
theorem matches_pure (a : α) : Matches R (pure a) (pure a) := fun _ _ h => .ok h

/-- The same fault thrown on both sides matches. -/
theorem matches_throw (fault : Fault) : Matches R (throw fault : FileM σ α) (throw fault) :=
  fun _ _ h => .error h

/-- The same check on both sides matches, since it does not look at the state. -/
theorem matches_ofExcept (r : Except Fault α) :
    Matches R (FileM.ofExcept r) (FileM.ofExcept r) := by
  cases r with
  | ok a => exact matches_pure a
  | error fault => exact matches_throw fault

/-- The same sum on both sides matches, whether or not it is a word. -/
theorem matches_sum (a b : Nat) : Matches R (FileM.sum a b) (FileM.sum a b) := by
  unfold FileM.sum
  cases Word.add? a b with
  | none => exact matches_throw _
  | some n => exact matches_pure n

section
variable {x : FileM σ α} {y : FileM τ α}

/-- Calls that begin alike end alike, if from every result they go on in calls that match. -/
theorem Alike.bind {f : α → FileM σ β} {g : α → FileM τ β} {s : σ} {t : τ}
    (h : Alike R (x s) (y t)) (hf : ∀ a, Matches R (f a) (g a)) :
    Alike R ((x >>= f) s) ((y >>= g) t) := by
  show Alike R (EStateM.bind x f s) (EStateM.bind y g t)
  unfold EStateM.bind
  generalize x s = rx, y t = ry at h
  cases h with
  | ok h => exact hf _ _ _ h
  | error h => exact .error h

/-- Calls match if their steps do. -/
theorem Matches.bind {f : α → FileM σ β} {g : α → FileM τ β} (h : Matches R x y)
    (hf : ∀ a, Matches R (f a) (g a)) : Matches R (x >>= f) (y >>= g) :=
  fun s t hR => (h s t hR).bind hf

/-- A choice that is made alike on both sides matches. -/
theorem Matches.ite {c : Prop} [Decidable c] {x' : FileM σ α} {y' : FileM τ α}
    (h : Matches R x y) (h' : Matches R x' y') :
    Matches R (if c then x else x') (if c then y else y') := by
  split
  · exact h
  · exact h'

/-- A check in front of two calls that match leaves them matching, since both sides fail it or none.
-/
theorem Matches.guard {c : Prop} [Decidable c] {fault : Fault} (h : Matches R x y) :
    Matches R (if c then throw fault >>= fun _ : PUnit => x else x)
      (if c then throw fault >>= fun _ : PUnit => y else y) :=
  .ite (fun _ _ hR => .error hR) h

/-- Faults may be replaced alike on both sides. -/
theorem Matches.mapFault (h : Matches R x y) (f : Fault → Fault) :
    Matches R (x.mapFault f) (y.mapFault f) := by
  intro s t hR
  have ha := h s t hR
  unfold FileM.mapFault
  generalize x s = rx, y t = ry at ha
  cases ha with
  | ok h => exact .ok h
  | error h => exact .error h

/-- What is caught on one side is caught on the other, and what stops one program stops both. -/
theorem Matches.attempt (h : Matches R x y) : Matches R x.attempt y.attempt := by
  intro s t hR
  have ha := h s t hR
  unfold FileM.attempt
  generalize x s = rx, y t = ry at ha
  cases ha with
  | ok h => exact .ok h
  | error h =>
    dsimp only
    split
    · exact .error h
    · exact .ok h

end

/-- Related streams have the same size and answer every exact read alike. -/
structure Echoes [Stream σ] [Stream τ] (R : σ → τ → Prop) : Prop where
  size : ∀ {s t}, R s t → Channel.size s = Channel.size t
  read : ∀ offset len, Matches R (FileM.readExactAt offset len) (FileM.readExactAt offset len)

/-- Streams that echo each other have the same size. -/
theorem Echoes.matches_size [Stream σ] [Stream τ] (h : Echoes R) :
    Matches R FileM.size FileM.size := by
  intro s t hR
  show Alike R (.ok (Channel.size s) s) (.ok (Channel.size t) t)
  rw [h.size hR]
  exact .ok hR

end FileM

open FileM

variable [Stream σ] [Stream τ] {R : σ → τ → Prop}

/-! ## Directories and values -/

namespace Directory

/-- A number is the same where the bytes are. -/
theorem readNumber_matches (h : Echoes R) (order : ByteOrder) (offset width : Nat) :
    Matches R (readNumber order offset width) (readNumber order offset width) :=
  (h.read offset width).bind fun _ => matches_pure _

/-- The count of a directory is the same on streams that echo each other, or is refused for the same
reason. -/
theorem readCount_matches (h : Echoes R) (header : Header) (limits : Limits) (size offset : Nat) :
    Matches R (readCount header limits size offset) (readCount header limits size offset) := by
  refine .guard (.guard ?_)
  refine (readNumber_matches h header.order _ _).bind fun count => ?_
  exact .guard (.guard (matches_pure count))

/-- The table of a directory is the same on streams that echo each other, or is refused alike. -/
theorem readTable_matches (h : Echoes R) (header : Header) (limits : Limits)
    (size start count : Nat) :
    Matches R (readTable header limits size start count)
      (readTable header limits size start count) := by
  unfold readTable
  cases Word.mul? count header.width.entrySize with
  | none => exact matches_throw _
  | some len => exact .guard ((matches_ofExcept _).bind fun _ => h.read _ _)

/-- The offset of the next directory is the same on streams that echo each other. -/
theorem readNext_matches (h : Echoes R) (header : Header) (size pos : Nat) :
    Matches R (readNext header size pos) (readNext header size pos) := by
  refine (matches_sum _ _).bind fun stop => .ite ?_ (matches_pure _)
  exact (readNumber_matches h header.order _ _).bind fun _ => matches_pure _

/-- Directories are the same on streams that echo each other. -/
theorem read_matches (h : Echoes R) (header : Header) (options : Options) (catalog : Catalog)
    (offset : Nat) :
    Matches R (read header options catalog offset) (read header options catalog offset) := by
  refine h.matches_size.bind fun size => ?_
  refine (readCount_matches h header options.limits size offset).bind fun count => ?_
  refine (readTable_matches h header options.limits size _ count).bind fun table => ?_
  refine (readNext_matches h header size _).bind fun next => ?_
  dsimp only
  cases keepAll header.order header.width options.strict size
    (records header.order header.width table count) with
  | error defect => exact matches_throw _
  | ok entries =>
    exact .ite ((matches_ofExcept _).bind fun _ => matches_pure _) (matches_pure _)

end Directory

namespace Entry

variable (order : ByteOrder) (limits : Limits) (e : Entry)

/-- The bytes of a value are the same on streams that echo each other. -/
theorem readBytes_matches (h : Echoes R) :
    Matches R (e.readBytes order limits) (e.readBytes order limits) := by
  refine (matches_ofExcept _).bind fun found => ?_
  cases found with
  | some bytes => exact matches_pure bytes
  | none =>
    refine (matches_ofExcept _).bind fun _ => h.matches_size.bind fun size => .guard ?_
    exact h.read _ _

/-- A value is the same on streams that echo each other. -/
theorem readValue_matches (h : Echoes R) :
    Matches R (e.readValue order limits) (e.readValue order limits) :=
  (e.readBytes_matches order limits h).bind fun _ => matches_ofExcept _

/-- The first number of a value is the same on streams that echo each other. -/
theorem readUnsigned_matches (h : Echoes R) :
    Matches R (e.readUnsigned order limits) (e.readUnsigned order limits) := by
  unfold readUnsigned
  split
  · exact matches_pure _
  · refine .guard ((readValue_matches order limits { e with count := 1 } h).bind fun value => ?_)
    split
    · exact matches_pure _
    · exact matches_throw _

/-- The list of the numbers of a value is the same on streams that echo each other. -/
theorem readUnsignedList_matches (h : Echoes R) :
    Matches R (e.readUnsignedList order limits) (e.readUnsignedList order limits) :=
  .guard (.ite (matches_pure _)
    ((e.readBytes_matches order limits h).bind fun _ => matches_pure _))

end Entry

/-! ## Layouts -/

namespace Layout

variable (order : ByteOrder) (limits : Limits) (d : Directory) (tag : KnownTag)

/-- The number of a field is the same on streams that echo each other. -/
theorem field_matches (h : Echoes R) :
    Matches R (field order limits d tag) (field order limits d tag) := by
  unfold field
  split
  · exact matches_pure none
  · next e _ =>
    exact ((e.readUnsigned_matches order limits h).mapFault _).bind fun _ => matches_pure _

/-- A field with a baseline value is the same on streams that echo each other, whether it is there
or missing. -/
theorem fieldOrDefault_matches (h : Echoes R) :
    Matches R (fieldOrDefault order limits d tag) (fieldOrDefault order limits d tag) :=
  (field_matches order limits d tag h).bind fun _ => matches_pure _

/-- A field that must be there is missing on both sides or on none. -/
theorem fieldNeeded_matches (h : Echoes R) :
    Matches R (fieldNeeded order limits d tag) (fieldNeeded order limits d tag) := by
  refine (field_matches order limits d tag h).bind fun found => ?_
  cases found with
  | none => exact matches_throw _
  | some n => exact matches_pure n

/-- The tables of units are the same, and are charged alike. -/
theorem table_matches (h : Echoes R) (budget : Budget) :
    Matches R (table order limits d tag budget) (table order limits d tag budget) := by
  unfold table
  split
  · exact matches_pure _
  · next e _ =>
    refine (e.readUnsignedList_matches order limits h).bind fun _ => ?_
    exact (matches_ofExcept _).bind fun _ => matches_pure _

/-- A directory has the same layout on streams that echo each other. -/
theorem resolve_matches (h : Echoes R) (header : Header) (options : Options) (d : Directory) :
    Matches R (resolve header options d) (resolve header options d) := by
  have hfield (tag : KnownTag) := field_matches header.order options.limits d tag h
  have hdefault (tag : KnownTag) := fieldOrDefault_matches header.order options.limits d tag h
  have hneeded (tag : KnownTag) := fieldNeeded_matches header.order options.limits d tag h
  have htable (tag : KnownTag) := table_matches header.order options.limits d tag h
  unfold resolve
  refine (hneeded _).bind fun width => (hneeded _).bind fun height => ?_
  refine (hdefault _).bind fun depth => (hdefault _).bind fun samples => ?_
  refine (hdefault _).bind fun bits => (hdefault _).bind fun planes => ?_
  split
  · exact matches_throw _
  · refine (hdefault _).bind fun compression => (hdefault _).bind fun predictor => ?_
    dsimp only
    generalize (if d.isTiled then UnitKind.tiles else UnitKind.strips) = kind
    -- strips and tiles differ in the fields that are read, and go on in the same way
    cases kind
    case' strips =>
      refine (hdefault _).bind fun rows => (matches_pure _).bind fun _ => ?_
      refine (matches_pure _).bind fun _ => ?_
    case' tiles =>
      refine (matches_pure _).bind fun _ => (hfield _).bind fun _ => ?_
      refine (hfield _).bind fun _ => (hdefault _).bind fun _ => ?_
      refine (matches_pure _).bind fun _ => ?_
    all_goals
      refine (htable _ _).bind fun _ => (htable _ _).bind fun _ => ?_
      refine h.matches_size.bind fun size => .ite ?_ (matches_pure _)
      exact (matches_ofExcept _).bind fun _ => matches_pure _

end Layout

/-! ## Browsers -/

namespace Browser

/-- A walk that has stopped stays where it is. -/
theorem next_stopped {b : Browser σ} (h : b.stop.isSome) : next b = .ok none b := by
  rw [next, if_pos h]

/-- The browser on another stream. -/
def withStream (b : Browser σ) (stream : τ) : Browser τ := { b with stream := stream }

section
variable (b : Browser σ) (stream : τ)

omit [Stream σ] [Stream τ]

/-- Another stream leaves the current directory alone. -/
@[simp] theorem withStream_current : (b.withStream stream).current = b.current := rfl

/-- Another stream leaves the offsets visited alone. -/
@[simp] theorem withStream_chain : (b.withStream stream).chain = b.chain := rfl

/-- Another stream leaves the reason to stop alone. -/
@[simp] theorem withStream_stop : (b.withStream stream).stop = b.stop := rfl

/-- Another stream leaves the fields of the current directory alone. -/
@[simp] theorem withStream_currentField? (tag : TagId) :
    (b.withStream stream).currentField? tag = b.currentField? tag := rfl

end

/-- The property says nothing of the stream. -/
def OffStream (W : Browser σ → Prop) : Prop :=
  ∀ b stream, W b → W { b with stream := stream }

/-- The property says nothing of the stream, the catalog and the number of jumps. -/
def Steady (W : Browser σ → Prop) : Prop :=
  ∀ b stream catalog jumps, W b → W { b with stream := stream, catalog := catalog, jumps := jumps }

/-- The first browser satisfies `W`, and the second is the same browser on a related stream. -/
def Twin (R : σ → τ → Prop) (W : Browser σ → Prop) (b : Browser σ) (c : Browser τ) : Prop :=
  W b ∧ ∃ stream, R b.stream stream ∧ c = b.withStream stream

variable {W : Browser σ → Prop}

omit [Stream σ] in
/-- What no call on the stream touches is not a matter of the stream. -/
theorem Steady.offStream (hW : Steady W) : OffStream W :=
  fun b stream h => hW b stream b.catalog b.jumps h

omit [Stream σ] in
/-- A walk that arrives somewhere leaves the stream to the read that led there. -/
theorem arrive_stream (b : Browser σ) (d : Directory) (offset : Nat) (index : Option Nat) :
    (b.arrive d offset index).stream = b.stream := by
  unfold arrive
  split <;> rfl

omit [Stream σ] [Stream τ] in
/-- A walk arrives at a place whatever the stream is. -/
theorem withStream_arrive (b : Browser σ) (stream : τ) (d : Directory) (offset : Nat)
    (index : Option Nat) :
    (b.withStream stream).arrive d offset index = (b.arrive d offset index).withStream stream := by
  show (if b.isKnown offset index then _ else _) = withStream (if _ then _ else _) stream
  split <;> rfl

omit [Stream σ] [Stream τ] in
/-- A call that looks at the browser first, and not at its stream. -/
theorem matches_get {f : Browser σ → FileM (Browser σ) α} {g : Browser τ → FileM (Browser τ) α}
    (h : ∀ b stream, Matches (Twin R W) (f b) (g (b.withStream stream))) :
    Matches (Twin R W) (get >>= f) (get >>= g) := by
  rintro b _ ⟨hW, stream, hR, rfl⟩
  exact h b stream _ _ ⟨hW, stream, hR, rfl⟩

omit [Stream σ] [Stream τ] in
/-- A call on the streams of two browsers matches if it does on the streams. -/
theorem onStream_matches (hW : OffStream W) {x : FileM σ α} {y : FileM τ α} (h : Matches R x y) :
    Matches (Twin R W) (onStream x) (onStream y) := by
  rintro b _ ⟨hb, stream, hR, rfl⟩
  have ha := h _ _ hR
  unfold onStream withStream
  dsimp only
  generalize x b.stream = rx, y stream = ry at ha
  cases ha with
  | ok h => exact .ok ⟨hW b _ hb, _, h, rfl⟩
  | error h => exact .error ⟨hW b _ hb, _, h, rfl⟩

omit [Stream σ] [Stream τ] in
/-- A jump is granted on both sides or refused on both. -/
theorem takeJump_matches (hW : Steady W) : Matches (Twin R W) takeJump takeJump := by
  rintro b _ ⟨hb, stream, hR, rfl⟩
  unfold takeJump withStream
  dsimp only
  split
  · exact .error ⟨hb, stream, hR, rfl⟩
  · exact .ok ⟨hW b _ _ _ hb, stream, hR, rfl⟩

/-- The offset of the next directory is the same on streams that echo each other. -/
theorem nextOffset_matches (h : Echoes R) (header : Header) (offset : Nat) :
    Matches R (nextOffset header offset) (nextOffset header offset) := by
  refine h.matches_size.bind fun size => ?_
  refine (Directory.readNumber_matches h header.order _ _).bind fun count => ?_
  cases Word.mul? count header.width.entrySize with
  | none => exact matches_throw _
  | some len =>
    refine (matches_sum _ _).bind fun start => .guard ?_
    exact Directory.readNumber_matches h header.order _ _

section
variable (h : Echoes R) (hW : OffStream W)
include h hW

/-- Twin browsers read the same directories. -/
theorem directoryAt_matches (offset : Nat) :
    Matches (Twin R W) (directoryAt offset) (directoryAt offset) := by
  rintro b _ ⟨hb, stream, hR, rfl⟩
  exact onStream_matches hW (Directory.read_matches h b.header b.options b.catalog offset) b _
    ⟨hb, stream, hR, rfl⟩

/-- Twin browsers read the same values. -/
theorem readValue_matches (e : Entry) : Matches (Twin R W) (readValue e) (readValue e) := by
  rintro b _ ⟨hb, stream, hR, rfl⟩
  exact onStream_matches hW (e.readValue_matches b.header.order b.options.limits h) b _
    ⟨hb, stream, hR, rfl⟩

/-- Twin browsers read the same lists of numbers. -/
theorem readUnsignedList_matches (e : Entry) :
    Matches (Twin R W) (readUnsignedList e) (readUnsignedList e) := by
  rintro b _ ⟨hb, stream, hR, rfl⟩
  exact onStream_matches hW (e.readUnsignedList_matches b.header.order b.options.limits h) b _
    ⟨hb, stream, hR, rfl⟩

/-- A field of the current directory has the same value on both sides. -/
theorem fieldValue_matches (tag : TagId) :
    Matches (Twin R W) (fieldValue tag) (fieldValue tag) := by
  refine matches_get fun b stream => ?_
  simp only [withStream_currentField?]
  cases b.currentField? tag with
  | none => exact matches_pure none
  | some e => exact (readValue_matches h hW e).bind fun _ => matches_pure _

/-- The number of a field is the same in twin browsers, and a fault about it names the tag in the
same way. -/
theorem fieldUnsigned_matches (tag : TagId) :
    Matches (Twin R W) (fieldUnsigned tag) (fieldUnsigned tag) := by
  refine matches_get fun b stream => ?_
  simp only [withStream_currentField?]
  cases b.currentField? tag with
  | none => exact matches_pure none
  | some e =>
    have hread := onStream_matches hW (e.readUnsigned_matches b.header.order b.options.limits h)
    exact (hread.mapFault _).bind fun _ => matches_pure _

/-- A field of the current directory has the same number on both sides, or the same baseline value.
-/
theorem fieldUnsignedOrDefault_matches (tag : TagId) :
    Matches (Twin R W) (fieldUnsignedOrDefault tag) (fieldUnsignedOrDefault tag) := by
  refine (fieldUnsigned_matches h hW tag).bind fun found => ?_
  cases found <;> exact matches_pure _

/-- The chain is listed alike: the two lists grow, and end, together. -/
theorem walk_matches (visited : List Nat) (offset n : Nat) :
    Matches (Twin R W) (walk visited offset n) (walk visited offset n) := by
  induction n generalizing visited offset with
  | zero => exact matches_pure []
  | succ n ih =>
    refine .ite (matches_pure []) ((directoryAt_matches h hW offset).attempt.bind fun r => ?_)
    cases r with
    | error fault => exact matches_pure _
    | ok d => exact (ih _ _).bind fun _ => matches_pure _

/-- All directories of the chain are listed alike. -/
theorem enumerate_matches (most : Nat) :
    Matches (Twin R W) (enumerate most) (enumerate most) :=
  matches_get fun b _ => walk_matches h hW [] b.header.first _

/-- The directories of the chain are counted alike. -/
theorem countFrom_matches (visited : List Nat) (offset n : Nat) :
    Matches (Twin R W) (countFrom visited offset n) (countFrom visited offset n) := by
  induction n generalizing visited offset with
  | zero => exact matches_pure _
  | succ n ih =>
    refine .ite (matches_pure _) (matches_get fun b stream => ?_)
    refine (onStream_matches hW (nextOffset_matches h b.header offset)).attempt.bind fun r => ?_
    cases r with
    | error fault => exact matches_pure _
    | ok next => exact ih _ _

/-- All directories of the chain are counted alike. -/
theorem count_matches : Matches (Twin R W) count count :=
  matches_get fun b _ => countFrom_matches h hW [] b.header.first _

/-- The offsets of the sub-directories are the same on both sides. -/
theorem subDirectoryOffsets_matches :
    Matches (Twin R W) subDirectoryOffsets subDirectoryOffsets := by
  refine matches_get fun b stream => ?_
  simp only [withStream_currentField?]
  cases b.currentField? KnownTag.subDirectories.id with
  | none => exact matches_pure []
  | some e => exact readUnsignedList_matches h hW e

/-- A directory has the same layout on both sides. -/
theorem layoutOf_matches (d : Directory) : Matches (Twin R W) (layoutOf d) (layoutOf d) := by
  rintro b _ ⟨hb, stream, hR, rfl⟩
  exact onStream_matches hW (Layout.resolve_matches h b.header b.options d) b _
    ⟨hb, stream, hR, rfl⟩

/-- The current directory, which is the same on both sides, has the same layout there. -/
theorem layout_matches : Matches (Twin R W) layout layout := by
  refine matches_get fun b stream => ?_
  simp only [withStream_current]
  cases b.current with
  | none => exact matches_throw _
  | some d => exact layoutOf_matches h hW d

/-- The stored bytes of a unit are the same on both sides. -/
theorem rawUnit_matches (l : Layout) (index : Nat) :
    Matches (Twin R W) (rawUnit l index) (rawUnit l index) := by
  refine (matches_ofExcept _).bind fun span => matches_get fun b stream => ?_
  exact (matches_ofExcept _).bind fun _ => onStream_matches hW (h.read span.1 span.2)

/-- The decoded bytes of a unit are the same on both sides, as the codecs are. -/
theorem decodedUnit_matches (l : Layout) (index : Nat) (codecs : Codecs) :
    Matches (Twin R W) (decodedUnit l index codecs) (decodedUnit l index codecs) := by
  refine (matches_ofExcept _).bind fun size => matches_get fun b stream => ?_
  refine (matches_ofExcept _).bind fun _ => ?_
  split
  · exact matches_throw _
  · exact matches_throw _
  · exact (rawUnit_matches h hW l index).bind fun stored => matches_ofExcept _

end

section
variable (h : Echoes R) (hW : Steady W)
include h hW

/-- A sub-directory is the same on both sides, and the jump to it is charged alike. -/
theorem enter_matches (e : Entry) (index : Nat) :
    Matches (Twin R W) (enter e index) (enter e index) := by
  refine .guard ((takeJump_matches hW).bind fun _ => ?_)
  refine (readUnsignedList_matches h hW.offStream e).bind fun offsets => ?_
  cases offsets[index]? with
  | none => exact matches_throw _
  | some offset => exact directoryAt_matches h hW.offStream offset

/-- A sub-directory of a field of the current directory is the same on both sides. -/
theorem subDirectory_matches (tag : TagId) (index : Nat) :
    Matches (Twin R W) (subDirectory tag index) (subDirectory tag index) := by
  refine matches_get fun b stream => ?_
  simp only [withStream_currentField?]
  cases b.currentField? tag with
  | none => exact matches_pure none
  | some e => exact (enter_matches h hW e index).bind fun _ => matches_pure _

end

end Browser

/-! ### Moves -/

namespace Browser

/-- The property says nothing but of the header and the options. -/
def OfFile (W : Browser σ → Prop) : Prop :=
  ∀ b b', b'.header = b.header → b'.options = b.options → W b → W b'

omit [Stream σ] in
/-- What is said of the file alone holds wherever the walk is. -/
theorem OfFile.steady {W : Browser σ → Prop} (hW : OfFile W) : Steady W :=
  fun b _ _ _ h => hW b _ rfl rfl h

omit [Stream σ] in
/-- The directory that the walk came to changes nothing of the file. -/
theorem OfFile.arrive {W : Browser σ → Prop} (hW : OfFile W) {b : Browser σ} (hb : W b)
    (d : Directory) (offset : Nat) (index : Option Nat) : W (b.arrive d offset index) := by
  unfold Browser.arrive
  split
  · exact hW b _ rfl rfl hb
  · exact hW b _ rfl rfl hb

variable {W : Browser σ → Prop} (h : Echoes R) (hW : OfFile W)
include h hW

/-- The walk takes the same step on both sides: what it meets, and what stops it, are the same. -/
theorem next_matches : Matches (Twin R W) next next := by
  rintro b _ ⟨hb, stream, hR, rfl⟩
  cases hst : b.stop with
  | some reason =>
    have hc : next (b.withStream stream) = .ok none _ := next_stopped (hst ▸ rfl)
    rw [next_stopped (hst ▸ rfl), hc]
    exact .ok ⟨hb, stream, hR, rfl⟩
  | none =>
    obtain ⟨⟨offset, place⟩, hsu⟩ : ∃ successor, b.successor = successor := ⟨_, rfl⟩
    cases ho : b.obstacle? offset place with
    | some reason =>
      have hc := next_stop (b := b.withStream stream) hst hsu ho
      rw [next_stop hst hsu ho, hc]
      exact .ok ⟨hW b _ rfl rfl hb, stream, hR, rfl⟩
    | none =>
      have hc := next_reads (b := b.withStream stream) hst hsu ho
      rw [next_reads hst hsu ho, hc]
      have hd := directoryAt_matches h hW.steady.offStream offset b _ ⟨hb, stream, hR, rfl⟩
      generalize directoryAt offset b = rx, directoryAt offset (b.withStream stream) = ry at hd
      cases hd with
      | @error fault b' _ hd =>
        obtain ⟨hb', stream', hR', rfl⟩ := hd
        exact .error ⟨hW b' _ rfl rfl hb', stream', hR', rfl⟩
      | @ok d b' _ hd =>
        obtain ⟨hb', stream', hR', rfl⟩ := hd
        dsimp only
        rw [withStream_arrive]
        exact .ok ⟨hW.arrive hb' d offset place, stream', (arrive_stream ..).symm ▸ hR', rfl⟩

/-- Several steps along the chain end alike on both sides. -/
theorem advance_matches (index n : Nat) :
    Matches (Twin R W) (advance index n) (advance index n) := by
  induction n with
  | zero =>
    refine matches_get fun b stream => ?_
    simp only [withStream_current]
    cases b.current with
    | none => exact matches_throw _
    | some d => exact matches_pure d
  | succ n ih =>
    refine (next_matches h hW).bind fun found => ?_
    cases found with
    | some d => exact ih
    | none =>
      refine matches_get fun b stream => ?_
      simp only [withStream_stop, withStream_chain]
      split
      · exact matches_throw _
      · exact matches_throw _

/-- A walk from the start comes to the same place of the chain on both sides. -/
theorem goTo_matches (index : Nat) : Matches (Twin R W) (goTo index) (goTo index) := by
  rintro b _ ⟨hb, stream, hR, rfl⟩
  exact advance_matches h hW index (index + 1) b.rewound _
    ⟨hW b _ rfl rfl hb, stream, hR, rfl⟩

/-- A jump leads to the same directory, with the same place in the chain. -/
theorem jumpTo_matches (offset : Nat) : Matches (Twin R W) (jumpTo offset) (jumpTo offset) := by
  refine (takeJump_matches hW.steady).bind fun _ => ?_
  refine (directoryAt_matches h hW.steady.offStream offset).bind fun d => ?_
  rintro b _ ⟨hb, stream, hR, rfl⟩
  exact .ok ⟨hW b _ rfl rfl hb, stream, hR, rfl⟩

end Browser

end TaggedImage
