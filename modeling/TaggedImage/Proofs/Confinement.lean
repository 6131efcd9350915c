import TaggedImage.Layout.Resolve
import TaggedImage.Proofs.Parsing

/-!
# Reads that stay within the content

`FileM.Confined` says that a call keeps what is known of the stream and fails, if at all, with a
fault of a given kind. On a stream of which nothing is known but that it serves a content, all calls
that read directories, values and layouts are confined to faults of their own (`Fault.IsOwn`): they
check every offset, count and size of the file before they ask the stream for a range.
-/

namespace TaggedImage

variable {σ α β : Type}

/-- The fault is not one of the stream, and it stops the program only if the content ends less than
eight bytes before the last word. -/
def Fault.IsOwn (content : ByteArray) : Fault → Prop
  | .stream _ => False
  | .overflow => Word.max < content.size + 8
  | _ => True

/-- A fault keeps its kind when its tag is renamed. -/
theorem Fault.IsOwn.forTag {content : ByteArray} {fault : Fault} (h : fault.IsOwn content)
    (name : String) : (fault.forTag name).IsOwn content := by
  cases fault <;> exact h

/-- In a content that ends eight bytes before the last word, it does not stop the program. -/
theorem Fault.IsOwn.not_stops {content : ByteArray} {fault : Fault} (h : fault.IsOwn content)
    (hw : content.size + 8 ≤ Word.max) : fault.stops = false := by
  cases fault with
  | stream e => exact h.elim
  | overflow => exact absurd hw (Nat.not_le_of_lt h)
  | _ => rfl

namespace FileM

/-- The result satisfies `Q`, or the fault satisfies `F`. -/
def Answers (F : Fault → Prop) (Q : α → Prop) : Except Fault α → Prop
  | .ok a => Q a
  | .error fault => F fault

/-- In the states of `P` the call answers as `F` and `Q` say, and it leaves such a state. -/
def Confined (P : σ → Prop) (F : Fault → Prop) (call : FileM σ α) (Q : α → Prop) : Prop :=
  ∀ s, P s → Ends call s (fun a s' => P s' ∧ Q a) (fun fault s' => P s' ∧ F fault)

variable {P : σ → Prop} {F G : Fault → Prop} {Q : α → Prop} {R : β → Prop}

/-- A computation answers as its second part does for every value of the first. -/
theorem Answers.bind {x : Except Fault α} {f : α → Except Fault β} (hx : Answers F Q x)
    (hf : ∀ a, Q a → Answers F R (f a)) : Answers F R (x >>= f) := by
  cases x with
  | error fault => exact hx
  | ok a => exact hf a hx

/-- What follows from what is said of a value is said of it, too. -/
theorem Answers.mono {Q' : α → Prop} {x : Except Fault α} (hx : Answers F Q x)
    (hq : ∀ a, Q a → Q' a) : Answers F Q' x := by
  cases x with
  | error fault => exact hx
  | ok a => exact hq a hx

/-- A value that satisfies something is, in particular, the value that was computed. -/
theorem Answers.self {x : Except Fault α} (hx : Answers F Q x) :
    Answers F (fun a => x = .ok a) x := by
  cases x with
  | error fault => exact hx
  | ok a => rfl

/-- A check in front of a computation answers as it does, if the fault of the check is one of the
kind. -/
theorem Answers.guard {c : Prop} [Decidable c] {fault : Fault} {y : Except Fault α} (hc : F fault)
    (hy : ¬ c → Answers F Q y) :
    Answers F Q (if c then throw fault >>= fun _ : PUnit => y else y) := by
  split
  · exact hc
  · exact hy ‹_›

/-- A computation whose errors are turned into faults of a kind has faults of this kind. -/
theorem Answers.mapError {ε : Type} {x : Except ε α} {f : ε → Fault} (hf : ∀ e, F (f e)) :
    Answers F (fun _ => True) (x.mapError f) := by
  cases x with
  | error e => exact hf e
  | ok a => trivial

/-- A value that is returned is confined if it satisfies what is said of values. -/
theorem confined_pure {a : α} (h : Q a) : Confined P F (pure a) Q := fun _ hs => ⟨hs, h⟩

/-- A fault of the kind may be thrown. -/
theorem confined_throw {fault : Fault} (h : F fault) : Confined P F (throw fault) Q :=
  fun _ hs => ⟨hs, h⟩

/-- A call is confined if its steps are, the second for every value of the first. -/
theorem Confined.bind {call : FileM σ α} {next : α → FileM σ β} (h : Confined P F call Q)
    (hn : ∀ a, Q a → Confined P F (next a) R) : Confined P F (call >>= next) R :=
  fun s hs => (h s hs).bind fun a s' ha => hn a ha.2 s' ha.1

/-- A confined call is confined to more faults, and to values of which less is said. -/
theorem Confined.mono {Q' : α → Prop} {call : FileM σ α} (h : Confined P F call Q)
    (hq : ∀ a, Q a → Q' a) (hf : ∀ fault, F fault → G fault) : Confined P G call Q' :=
  fun s hs => (h s hs).mono (fun a _ ha => ⟨ha.1, hq a ha.2⟩)
    fun fault _ hb => ⟨hb.1, hf fault hb.2⟩

/-- Whatever a confined call answers, it leaves such a state. -/
theorem Confined.leaves {call : FileM σ α} (h : Confined P F call Q) {s : σ} (hs : P s) :
    P (FileM.leaves call s) := by
  have he := h s hs
  rw [FileM.leaves]
  cases hc : call s with
  | ok a s' => exact (he.ok hc).1
  | error fault s' => exact (he.error hc).1

/-- A choice between two confined calls is confined. -/
theorem Confined.ite {c : Prop} [Decidable c] {x y : FileM σ α} (hx : c → Confined P F x Q)
    (hy : ¬ c → Confined P F y Q) : Confined P F (if c then x else y) Q := by
  split
  · exact hx ‹_›
  · exact hy ‹_›

/-- A check in front of a confined call is confined with it, if its fault is of the kind. -/
theorem Confined.guard {c : Prop} [Decidable c] {fault : Fault} {y : FileM σ α} (hc : F fault)
    (hy : ¬ c → Confined P F y Q) :
    Confined P F (if c then throw fault >>= fun _ : PUnit => y else y) Q :=
  .ite (fun _ => confined_throw hc) hy

/-- A call with a known answer is confined if this answer is as it should be. -/
theorem Gives.confined {call : FileM σ α} {r : Except Fault α} (h : Gives P call r)
    (hr : Answers F Q r) : Confined P F call Q := by
  intro s hs
  obtain ⟨s', hs', hc⟩ := h s hs
  cases r with
  | ok a => exact .of_ok hc ⟨hs', hr⟩
  | error fault => exact .of_error hc ⟨hs', hr⟩

/-- A check is confined as a computation. -/
theorem confined_ofExcept {r : Except Fault α} (hr : Answers F Q r) :
    Confined P F (FileM.ofExcept r) Q :=
  (gives_ofExcept r).confined hr

/-- Faults may be replaced by faults of the same kind. -/
theorem Confined.mapFault {call : FileM σ α} {f : Fault → Fault} (h : Confined P F call Q)
    (hf : ∀ fault, F fault → F (f fault)) : Confined P F (call.mapFault f) Q := by
  intro s hs
  have hcall := h s hs
  cases hc : call s with
  | ok a s' => exact .of_ok (by rw [FileM.mapFault, hc]) (hcall.ok hc)
  | error fault s' =>
    obtain ⟨hs', hfault⟩ := hcall.error hc
    exact .of_error (by rw [FileM.mapFault, hc]) ⟨hs', hf _ hfault⟩

/-- An attempt answers the fault, or raises it if it stops the program. -/
theorem Confined.attempt {call : FileM σ α} (h : Confined P F call Q) :
    Confined P F call.attempt (Answers F Q) := by
  intro s hs
  refine ends_attempt ((h s hs).mono (fun _ _ => id) fun fault s' he => ?_)
  split
  · exact he
  · exact he

/-- An attempt at a call whose faults do not stop the program raises nothing. -/
theorem Confined.attempt_caught {call : FileM σ α} (h : Confined P (·.stops = false) call Q) :
    Confined P F call.attempt (Answers (·.stops = false) Q) := by
  intro s hs
  refine ends_attempt ((h s hs).mono (fun _ _ => id) fun fault s' he => ?_)
  rw [if_neg (by rw [he.2]; decide)]
  exact he

/-- Whatever the call, an attempt at it raises faults only that stop the program. -/
theorem confined_attempt (call : FileM σ α) :
    Confined (fun _ => True) (·.stops = true) call.attempt (fun _ => True) :=
  fun s _ => (ends_attempt_answer call s).mono (fun _ _ _ => ⟨trivial, trivial⟩)
    fun _ _ h => ⟨trivial, h.2⟩

end FileM

open FileM

/-! ## Directories -/

/-- The size of the values is a word. -/
def Entry.Sized (e : Entry) : Prop := e.count * e.type.width ≤ Word.max

/-- The size of the values is then computed exactly, though the product stops at the largest word.
-/
theorem Entry.Sized.size {e : Entry} (h : e.Sized) : e.size = e.count * e.type.width := by
  have hs : e.type.size? e.count = some (e.count * e.type.width) :=
    Word.mul?_eq_some_iff.2 ⟨rfl, h⟩
  rw [Entry.size, hs, Option.getD_some]

namespace Directory

/-- The sizes of the values of all fields are words. -/
def Sized (d : Directory) : Prop := ∀ e ∈ d.entries, e.Sized

/-- The entry of a tag is one of the entries of its directory. -/
theorem sized_of_get? {d : Directory} (h : d.Sized) {tag : TagId} {e : Entry}
    (he : d.get? tag = some e) : e.Sized :=
  h e (List.mem_of_find?_eq_some he)

variable {order : ByteOrder} {width : OffsetWidth} {size : Nat} {strict : Bool}

/-- A record whose values have more bytes than a word counts is not taken. -/
theorem sized_of_toEntry {r : Record} {type : FieldType} {e : Entry}
    (h : r.toEntry order width size type = .ok e) : e.Sized := by
  unfold Record.toEntry at h
  split at h
  · cases h
  · next valueSize hs =>
    obtain ⟨-, hle⟩ := Word.mul?_eq_some_iff.1 hs
    dsimp only at h
    split at h
    · cases h
    · cases h
      exact hle

/-- A record that is kept is one entry more at most. -/
theorem mem_of_keep {kept kept' : Kept} {r : Record}
    (h : keep order width strict size kept r = .ok kept')
    {e : Entry} (he : e ∈ kept'.entries) :
    e ∈ kept.entries ∨ ∃ type, r.toEntry order width size type = .ok e := by
  have hadd {type : FieldType} (h : keep.add order width size kept r type = .ok kept') :
      e ∈ kept.entries ∨ ∃ type, r.toEntry order width size type = .ok e := by
    unfold keep.add at h
    cases ht : r.toEntry order width size type with
    | error defect =>
      rw [ht] at h
      cases h
    | ok e' =>
      rw [ht] at h
      cases h
      rcases List.mem_cons.1 he with rfl | he
      · exact .inr ⟨type, ht⟩
      · exact .inl he
  unfold keep at h
  split at h
  · cases h
    exact .inl he
  · split at h
    · split at h
      · cases h
      · cases h
        exact .inl he
    · split at h
      · split at h
        · cases h
        · exact hadd h
      · exact hadd h

/-- All entries that are kept of a table have values of a known size. -/
theorem sized_of_keepAll {rs : List Record} {es : List Entry}
    (h : keepAll order width strict size rs = .ok es) : ∀ e ∈ es, e.Sized := by
  have hfold : ∀ (rs : List Record) (kept kept' : Kept), (∀ e ∈ kept.entries, e.Sized) →
      rs.foldlM (keep order width strict size) kept = .ok kept' →
      ∀ e ∈ kept'.entries, e.Sized := by
    intro rs
    induction rs with
    | nil =>
      intro kept kept' hk h
      cases h
      exact hk
    | cons r rs ih =>
      intro kept kept' hk h
      rw [List.foldlM_cons] at h
      cases hr : keep order width strict size kept r with
      | error defect =>
        rw [hr] at h
        cases h
      | ok next =>
        rw [hr] at h
        refine ih next kept' (fun e he => ?_) h
        rcases mem_of_keep hr he with he | ⟨type, ht⟩
        · exact hk e he
        · exact sized_of_toEntry ht
  unfold keepAll at h
  cases hf : rs.foldlM (keep order width strict size) {} with
  | error defect =>
    rw [hf] at h
    cases h
  | ok kept =>
    rw [hf] at h
    cases h
    exact fun e he => hfold rs {} kept nofun hf e (List.mem_reverse.1 he)

variable {header : Header} {options : Options} {limits : Limits} {content : ByteArray}

/-- A count is refused before it is read if it does not lie in the content. -/
theorem answers_countIn (offset : Nat) :
    Answers (Fault.IsOwn content) (fun _ => True) (countIn header limits content offset) := by
  unfold countIn
  split
  · trivial
  · split
    · trivial
    · dsimp only
      split
      · trivial
      · split
        · trivial
        · trivial

/-- A budget refuses what is over one of its limits, and nothing else. -/
theorem answers_reserve {F : Fault → Prop} (hF : ∀ requested limit, F (.overLimit requested limit))
    (budget : Budget) (n : Nat) : Answers F (fun _ => True) (budget.reserve n) := by
  unfold Budget.reserve
  split
  · exact hF _ _
  · split
    · split
      · trivial
      · exact hF _ _
    · exact hF _ _

/-- A table that is found ends within the content. -/
theorem answers_tableIn (start count : Nat) :
    Answers (Fault.IsOwn content)
      (fun _ => count * header.width.entrySize ≤ content.size - start)
      (tableIn header limits content start count) := by
  unfold tableIn
  split
  · trivial
  · next hlen =>
    obtain ⟨rfl, -⟩ := Word.mul?_eq_some_iff.1 hlen
    split
    · trivial
    · exact (answers_reserve (fun _ _ => trivial) _ _).bind fun _ _ =>
        Nat.le_of_not_lt ‹_›

/-- The offset of the next directory behind a table within the content ends at a word, unless the
content itself ends at the end of the words. -/
theorem answers_nextIn {pos : Nat} (h : pos ≤ content.size) :
    Answers (Fault.IsOwn content) (fun _ => True) (nextIn header content pos) := by
  have hsize : header.width.offsetSize ≤ 8 := by cases header.width <;> decide
  unfold nextIn
  split
  · trivial
  · show Word.max < content.size + 8
    omega

/-- The numbers of values are right, or the directory is malformed. -/
theorem answers_checkCounts {F : Fault → Prop} (hF : ∀ offset defect, F (.malformed offset defect))
    (d : Directory) (catalog : Catalog) :
    Answers F (fun _ => True) (d.checkCounts order catalog) := by
  unfold checkCounts
  split
  · exact hF _ _
  · trivial

/-- A directory that can be parsed has fields of known size, and one that cannot is refused for a
reason of its own. -/
theorem answers_parse (catalog : Catalog) (offset : Nat) :
    Answers (Fault.IsOwn content) Sized (parse header options catalog content offset) := by
  refine (answers_countIn offset).self.bind fun count hcount => ?_
  have hstart := countSize_le_of_countIn hcount
  refine (answers_tableIn _ count).bind fun table htable => ?_
  refine (answers_nextIn (by omega)).bind fun next _ => ?_
  dsimp only
  split
  · trivial
  · next entries hk =>
    have hs : ∀ e ∈ entries, e.Sized := sized_of_keepAll hk
    split
    · exact (answers_checkCounts (fun _ _ => trivial) _ catalog).bind fun _ _ => hs
    · exact hs

end Directory

section
variable [Stream σ] {P : σ → Prop} {content : ByteArray} {order : ByteOrder} {limits : Limits}

/-- A directory is read without a fault of the stream, and its fields have values of a known size.
-/
theorem Directory.read_confined (hP : Serves P content) (header : Header) (options : Options)
    (catalog : Catalog) (offset : Nat) :
    Confined P (Fault.IsOwn content) (read header options catalog offset) Sized :=
  (read_gives hP header options catalog offset).confined (answers_parse catalog offset)

/-! ## Values -/

/-- The refusal of a slice tells where it was to begin, if that is a word. -/
theorem Window.answers_slice {w : Window} {offset : Nat} (h : w.base + offset ≤ Word.max)
    (len : Nat) : Answers (Fault.IsOwn content) (fun _ => True) (w.slice offset len) := by
  unfold slice
  split
  · trivial
  · show (w.refusal offset len).IsOwn content
    rw [refusal, Word.add?, if_pos h]
    trivial

/-- Values are decoded without a fault of the stream; no position in them is past the last word. -/
theorem Value.answers_decode (data : ByteArray) (type : FieldType) (n : Nat) (order : ByteOrder)
    {base : Nat} (hbase : base ≤ Word.max) :
    Answers (Fault.IsOwn content) (fun _ => True) (decode data type n order base) :=
  (Window.answers_slice (w := ⟨data, order, base⟩) hbase _).bind fun _ _ => trivial

namespace Entry

/-- The bytes of an entry are as many as its values need, and if the entry does not hold them itself
they are a range of the content that is not above the limit. -/
structure HasBytes (order : ByteOrder) (limits : Limits) (content : ByteArray) (e : Entry)
    (data : ByteArray) : Prop where
  size : data.size = e.count * e.type.width
  single : e.isInline = false → data.size ≤ limits.single
  outside : e.isInline = false →
    data = content.extract (e.offset order) (e.offset order + e.count * e.type.width)

/-- What passes the check of a single buffer is within its limit. -/
theorem answers_checkSingle (n : Nat) :
    Answers (Fault.IsOwn content) (fun _ => n ≤ limits.single) (limits.checkSingle n) := by
  unfold Limits.checkSingle
  split
  · trivial
  · exact Nat.le_of_not_lt ‹_›

/-- The bytes of a value are as many as the entry declares, and no more than a buffer may have. -/
theorem answers_bytesIn (e : Entry) :
    Answers (Fault.IsOwn content) (fun data => e.Sized → HasBytes order limits content e data)
      (e.bytesIn order limits content) := by
  have hinline : Answers (Fault.IsOwn content)
      (fun found => ∀ data, found = some data → e.isInline = true ∧ data.size = e.size)
      e.inlineBytes := by
    unfold inlineBytes
    split
    · nofun
    · next hi =>
      split
      · rintro data ⟨⟩
        refine ⟨by simpa using hi, ?_⟩
        rw [ByteArray.size_extract]
        omega
      · trivial
  refine hinline.bind fun found hf => ?_
  cases found with
  | some data =>
    intro hs
    obtain ⟨hi, hd⟩ := hf data rfl
    refine ⟨hd.trans hs.size, fun h => ?_, fun h => ?_⟩ <;> rw [hi] at h <;> cases h
  | none =>
    refine (answers_checkSingle e.size).bind fun _ hle => ?_
    split
    · trivial
    · intro hs
      have hsize : (content.extract (e.offset order) (e.offset order + e.size)).size = e.size := by
        rw [ByteArray.size_extract]
        omega
      exact ⟨hsize.trans hs.size, fun _ => hsize.symm ▸ hle, fun _ => by rw [hs.size]⟩

/-- Where the values lie is told by a number of eight bytes at most. -/
theorem offset_le (order : ByteOrder) (e : Entry) : e.offset order ≤ Word.max := by
  unfold offset
  split
  · next h =>
    have hlt := order.decode_lt (e.raw.extract 0 (0 + e.raw.size)).data.toList
    rw [Array.length_toList, ByteArray.size_data, ByteArray.size_extract, Nat.zero_add,
      Nat.min_self, Nat.sub_zero] at hlt
    have hcapacity : ByteOrder.capacity e.raw.size ≤ Word.max + 1 := by
      rcases h with h | h <;> rw [h] <;> decide
    rw [ByteOrder.numberAt, Nat.zero_add]
    exact Nat.le_of_lt_succ (Nat.lt_of_lt_of_le hlt hcapacity)
  · exact Nat.zero_le _

/-- The bytes of a value are read without a fault of the stream, and are those of the content. -/
theorem readBytes_confined (hP : Serves P content) (e : Entry) :
    Confined P (Fault.IsOwn content) (e.readBytes order limits)
      (fun data => e.Sized → HasBytes order limits content e data) :=
  (readBytes_gives hP order limits e).confined (answers_bytesIn e)

/-- The value was decoded from the bytes of the entry. -/
def HasValue (order : ByteOrder) (limits : Limits) (content : ByteArray) (e : Entry) (v : Value) :
    Prop :=
  ∃ data base, HasBytes order limits content e data ∧
    Value.decode data e.type e.count order base = .ok v

/-- A value is read without a fault of the stream, and is that of the content. -/
theorem readValue_confined (hP : Serves P content) (e : Entry) :
    Confined P (Fault.IsOwn content) (e.readValue order limits)
      (fun v => e.Sized → HasValue order limits content e v) := by
  refine (readBytes_confined hP e).bind fun data hd => confined_ofExcept ?_
  have hbase : (if e.isInline then 0 else e.offset order) ≤ Word.max := by
    split
    · exact Nat.zero_le _
    · exact e.offset_le order
  exact (Value.answers_decode _ _ _ _ hbase).self.mono fun v hv hs => ⟨data, _, hd hs, hv⟩

/-- A single number is read as a value of one component. -/
theorem readUnsigned_confined (hP : Serves P content) (e : Entry) :
    Confined P (Fault.IsOwn content) (e.readUnsigned order limits) (fun _ => True) := by
  unfold readUnsigned
  split
  · exact confined_pure trivial
  · refine .guard trivial fun _ => ?_
    refine (readValue_confined hP { e with count := 1 }).bind fun v _ => ?_
    split
    · exact confined_pure trivial
    · exact confined_throw trivial

/-- A list of numbers is read without a fault of the stream, one for each value that the entry
declares. -/
theorem readUnsignedList_confined (hP : Serves P content) (e : Entry) :
    Confined P (Fault.IsOwn content) (e.readUnsignedList order limits)
      (fun ns => e.Sized → ns.length = e.count) := by
  unfold readUnsignedList
  refine .guard trivial fun hu => .ite (fun h0 => ?_) fun _ => ?_
  · exact confined_pure fun _ => h0.symm
  · refine (readBytes_confined hP e).bind fun data hd => confined_pure fun hs => ?_
    have hw := e.type.width_pos
    rw [Bool.not_eq_true', Bool.not_eq_false] at hu
    rw [unsignedList, if_pos hu, Value.words, Bytes.length_chunks, (hd hs).size,
      Nat.mul_div_cancel _ hw, Nat.min_self]

end Entry

/-! ## Layouts -/

namespace Layout

/-- A product that is no word is refused as a fault of the geometry. -/
theorem answers_product (quantity : String) (factors : List Nat) :
    Answers (Fault.IsOwn content) (fun _ => True) (product quantity factors) := by
  unfold product
  generalize 1 = acc
  induction factors generalizing acc with
  | nil => trivial
  | cons factor factors ih =>
    rw [List.foldlM_cons]
    split
    · exact ih _
    · trivial

variable (l : Layout)

/-- Tiles with an empty edge are refused as a fault of the geometry. -/
theorem answers_checkTiles : Answers (Fault.IsOwn content) (fun _ => True) l.checkTiles := by
  unfold checkTiles
  split
  · trivial
  · split
    · trivial
    · trivial

/-- The number of strips of a plane has no other faults. -/
theorem answers_stripsPerPlane :
    Answers (Fault.IsOwn content) (fun _ => True) l.stripsPerPlane := by
  unfold stripsPerPlane
  split
  · trivial
  · trivial

/-- The number of tiles in a row has no other faults. -/
theorem answers_tilesAcross : Answers (Fault.IsOwn content) (fun _ => True) l.tilesAcross :=
  l.answers_checkTiles.bind (f := fun _ => .ok _) fun _ _ => trivial

/-- The number of units is refused for reasons of the layout only. -/
theorem answers_unitCount : Answers (Fault.IsOwn content) (fun _ => True) l.unitCount := by
  refine Answers.bind (Q := fun _ => True) ?_ fun _ _ => answers_product _ _
  unfold unitsPerPlane
  split
  · exact l.answers_stripsPerPlane
  · exact l.answers_tilesAcross.bind fun _ _ => answers_product _ _

/-- The index of a unit that there is none of is refused as such. -/
theorem answers_checkIndex (index : Nat) :
    Answers (Fault.IsOwn content) (fun _ => True) (l.checkIndex index) :=
  l.answers_unitCount.bind fun _ _ => .guard trivial fun _ => trivial

/-- A unit that has a place lies within the stream, with the number of bytes that its table says. -/
theorem answers_unitSpan (index : Nat) :
    Answers (Fault.IsOwn content)
      (fun span => l.offsets[index]? = some span.1 ∧ l.byteCounts[index]? = some span.2 ∧
        span.1 + span.2 ≤ l.streamSize) (l.unitSpan index) := by
  refine l.answers_unitCount.bind fun count _ => ?_
  dsimp only
  split
  · next offset length ho hl =>
    split
    · trivial
    · split
      · trivial
      · split
        · trivial
        · exact ⟨ho, hl, by omega⟩
  · trivial

/-- The bytes of a unit are the range of the content that the tables of the layout give, and no more
than the limit. -/
def HasUnit (limits : Limits) (content : ByteArray) (l : Layout)
    (index : Nat) (data : ByteArray) : Prop :=
  ∃ offset, l.offsets[index]? = some offset ∧ l.byteCounts[index]? = some data.size ∧
    data.size ≤ limits.single ∧ data = content.extract offset (offset + data.size)

/-- The size of a line is refused only if it is no word. -/
theorem answers_scanlineSize : Answers (Fault.IsOwn content) (fun _ => True) l.scanlineSize :=
  (answers_product _ _).bind fun _ _ => trivial

/-- The size of a line of a tile is a product. -/
theorem answers_tileRowSize : Answers (Fault.IsOwn content) (fun _ => True) l.tileRowSize :=
  l.answers_checkTiles.bind fun _ _ => (answers_product _ _).bind fun _ _ => trivial

/-- The size of a line of a unit, a line of the image or of a tile, is refused for reasons of the
layout only. -/
theorem answers_unitRowSize : Answers (Fault.IsOwn content) (fun _ => True) l.unitRowSize := by
  unfold unitRowSize
  split
  · exact l.answers_scanlineSize
  · exact l.answers_tileRowSize

/-- The size of a unit has faults of the geometry only, or of the index. -/
theorem answers_unitDecodedSize (index : Nat) :
    Answers (Fault.IsOwn content) (fun _ => True) (l.unitDecodedSize index) := by
  unfold unitDecodedSize
  split
  · refine Answers.bind (Q := fun _ => True) (.guard trivial fun _ => ?_) fun _ _ => ?_
    · exact (l.answers_checkIndex index).bind fun _ _ =>
        l.answers_stripsPerPlane.bind fun _ _ => trivial
    · exact l.answers_scanlineSize.bind fun _ _ => answers_product _ _
  · refine (l.answers_checkIndex index).bind fun _ _ => .guard trivial fun _ => ?_
    exact l.answers_tileRowSize.bind fun _ _ => answers_product _ _

/-- Tables of another length than there are units are refused as a defect of the directory. -/
theorem answers_checkTables (offset : Nat) :
    Answers (Fault.IsOwn content) (fun _ => True) (l.checkTables offset) := by
  have hcheck (tag : KnownTag) (actual expected : Nat) :
      Answers (Fault.IsOwn content) (fun _ => True)
        (if actual = 0 ∨ actual = expected then .ok ()
          else .error (.malformed offset
            (.wrongTableLength tag.label actual expected l.kind.name))) := by
    split
    · trivial
    · trivial
  unfold checkTables
  split
  · trivial
  · exact (hcheck _ _ _).bind fun _ _ => hcheck _ _ _

variable {l} {d : Directory}

/-- The number of a field is read without a fault of the stream. -/
theorem field_confined (hP : Serves P content) (tag : KnownTag) :
    Confined P (Fault.IsOwn content) (field order limits d tag) (fun _ => True) := by
  unfold field
  split
  · exact confined_pure trivial
  · next e _ =>
    refine ((e.readUnsigned_confined hP).mapFault fun _ h => h.forTag _).bind fun _ _ => ?_
    exact confined_pure trivial

/-- The number of a field that has a baseline value is read without a fault of the stream. -/
theorem fieldOrDefault_confined (hP : Serves P content) (tag : KnownTag) :
    Confined P (Fault.IsOwn content) (fieldOrDefault order limits d tag) (fun _ => True) :=
  (field_confined hP tag).bind fun _ _ => confined_pure trivial

/-- A field that must be there is read with faults of its own; that it is missing is one of them. -/
theorem fieldNeeded_confined (hP : Serves P content) (tag : KnownTag) :
    Confined P (Fault.IsOwn content) (fieldNeeded order limits d tag) (fun _ => True) := by
  refine (field_confined hP tag).bind fun found _ => ?_
  cases found with
  | none => exact confined_throw trivial
  | some n => exact confined_pure trivial

/-- A table of units is read without a fault of the stream, and charged before. -/
theorem table_confined (hP : Serves P content) (tag : KnownTag) (budget : Budget) :
    Confined P (Fault.IsOwn content) (table order limits d tag budget) (fun _ => True) := by
  unfold table
  split
  · exact confined_pure trivial
  · next e _ =>
    refine (e.readUnsignedList_confined hP).bind fun _ _ => ?_
    exact (confined_ofExcept (Directory.answers_reserve (fun _ _ => trivial) _ _)).bind
      fun _ _ => confined_pure trivial

/-- A layout is resolved with faults of its own, and remembers the size of the content as that of
the stream. -/
theorem resolve_confined (hP : Serves P content) (header : Header) (options : Options)
    (d : Directory) :
    Confined P (Fault.IsOwn content) (resolve header options d)
      (fun l => l.streamSize = content.size) := by
  unfold resolve
  refine (fieldNeeded_confined hP _).bind fun width _ => ?_
  refine (fieldNeeded_confined hP _).bind fun height _ => ?_
  refine (fieldOrDefault_confined hP _).bind fun depth _ => ?_
  refine (fieldOrDefault_confined hP _).bind fun samples _ => ?_
  refine (fieldOrDefault_confined hP _).bind fun bits _ => ?_
  refine (fieldOrDefault_confined hP _).bind fun planes _ => ?_
  split
  · exact confined_throw trivial
  · refine (fieldOrDefault_confined hP _).bind fun compression _ => ?_
    refine (fieldOrDefault_confined hP _).bind fun predictor _ => ?_
    dsimp only
    generalize (if d.isTiled then UnitKind.tiles else UnitKind.strips) = kind
    have pure_confined {α : Type} (a : α) :
        Confined P (Fault.IsOwn content) (pure a : FileM σ α) (fun _ => True) :=
      confined_pure trivial
    -- strips and tiles differ in the fields that are read, and go on in the same way
    cases kind
    case' strips =>
      refine (fieldOrDefault_confined hP _).bind fun rows _ => (pure_confined _).bind fun _ _ => ?_
      refine (pure_confined _).bind fun _ _ => ?_
    case' tiles =>
      refine (pure_confined _).bind fun _ _ => (field_confined hP _).bind fun _ _ => ?_
      refine (field_confined hP _).bind fun _ _ => (fieldOrDefault_confined hP _).bind fun _ _ => ?_
      refine (pure_confined _).bind fun _ _ => ?_
    all_goals
      refine (table_confined hP _ _).bind fun _ _ => (table_confined hP _ _).bind fun _ _ => ?_
      refine ((gives_size hP).confined (Q := fun n => n = content.size) rfl).bind fun n hn => ?_
      refine .ite (fun _ => ?_) fun _ => confined_pure hn
      exact (confined_ofExcept (answers_checkTables _ _)).bind fun _ _ => confined_pure hn

end Layout

end

end TaggedImage
