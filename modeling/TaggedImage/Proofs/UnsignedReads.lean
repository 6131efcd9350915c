import TaggedImage.Proofs.SampleLayout

/-!
# The ways to read unsigned integers

The unsigned integers of an entry can be read in four ways: as a value of the type
(`Entry.readValue`), as a list of numbers (`Entry.readUnsignedList`), as the first number alone
(`Entry.readUnsigned`), and, if there is one only and the value field holds it, without the stream
(`Entry.inlineUnsigned?`). Each has a decoder of its own. Whatever one of the readers is asked for,
it answers the numbers that the bytes store (`Entry.numberIn`), so all of them agree
(`Directory.unsignedReads_agree`).

A value that was read shows that its bytes are there and that they are not more than a buffer may
have (`Entry.Within.of_valueIn`), and the other readers need no more than that.
-/

namespace TaggedImage

open FileM

variable {header : Header} {content : ByteArray} {order : ByteOrder} {limits : Limits}

namespace Entry

variable {e : Entry} {v : Value}

/-- Bytes that were read are all bytes of the values, and a buffer may have them if they do not lie
in the value field. -/
theorem Within.of_bytesIn (h : e.Within order content) {data : ByteArray}
    (hd : e.bytesIn order limits content = .ok data) :
    data.size = e.count * e.type.width ∧
      (e.isInline = true ∨ e.count * e.type.width ≤ limits.single) := by
  have hl : e.isInline = true ∨ e.count * e.type.width ≤ limits.single := by
    cases hi : e.isInline with
    | true => exact .inl rfl
    | false =>
      rw [h.bytesIn_outside hi] at hd
      split at hd
      · cases hd
      · next hle => exact .inr (Nat.le_of_not_lt hle)
  obtain ⟨data', hd', hsize⟩ := h.exists_bytesIn hl
  rw [hd] at hd'
  cases hd'
  exact ⟨hsize, hl⟩

/-- A value that can be read has as many bytes as the entry declares. -/
theorem Within.of_valueIn (h : e.Within order content)
    (hv : e.valueIn order limits content = .ok v) :
    ∃ data, e.bytesIn order limits content = .ok data ∧ data.size = e.count * e.type.width ∧
      (e.isInline = true ∨ e.count * e.type.width ≤ limits.single) := by
  obtain ⟨data, hd, -⟩ := bind_eq_ok.1 hv
  exact ⟨data, hd, h.of_bytesIn hd⟩

variable {σ : Type} [Stream σ] {P : σ → Prop}

/-- All numbers of an entry are read, wherever they lie. -/
theorem Within.readUnsignedList_gives (hP : Serves P content) (h : e.Within order content)
    (hu : e.type.isUnsigned = true) {data : ByteArray}
    (hd : e.bytesIn order limits content = .ok data) :
    Gives P (e.readUnsignedList order limits)
      (.ok ((List.range e.count).map (e.numberIn order content))) := by
  have hcount : data.size / e.type.width = e.count := by
    rw [(h.of_bytesIn hd).1, Nat.mul_div_cancel _ e.type.width_pos]
  have hbytes := readBytes_gives hP order limits e
  rw [hd] at hbytes
  unfold readUnsignedList
  rw [if_neg (by simp [hu])]
  split
  · next h0 =>
    rw [h0]
    exact gives_pure []
  · refine hbytes.bind_ok ?_
    rw [unsignedList, if_pos hu, hcount, Nat.min_self, words_of_bytesIn h.sized hd]
    exact gives_pure _

/-- The other ways to read the unsigned integers of an entry answer what its values say: all of
them, the first of them, and the only one. -/
structure ReadsAlike (P : σ → Prop) (order : ByteOrder) (limits : Limits) (e : Entry) (v : Value) :
    Prop where
  list : ∃ ns, v.unsigned? = some ns ∧ ns.length = e.count ∧ ns.head? = v.firstUnsigned? ∧
    Gives P (e.readUnsignedList order limits) (.ok ns)
  first : 0 < e.count → ∃ n, v.firstUnsigned? = some n ∧
    Gives P (e.readUnsigned order limits) (.ok n)
  inline : ∀ {n}, e.inlineUnsigned? order = some n → v.firstUnsigned? = some n

/-- The ways to read numbers agree on a field that can be read as a value. -/
theorem Within.readsAlike (hP : Serves P content) (h : e.Within order content)
    (hu : e.type.isUnsigned = true) (hv : e.valueIn order limits content = .ok v) :
    e.ReadsAlike P order limits v := by
  have hall := unsigned?_of_valueIn h.sized hu hv
  have hfirst (hc : 0 < e.count) : v.firstUnsigned? = some (e.numberIn order content 0) := by
    obtain ⟨n, hn⟩ := Nat.exists_eq_succ_of_ne_zero (Nat.ne_of_gt hc)
    rw [Value.firstUnsigned?_eq, hall, hn, List.range_succ_eq_map]
    rfl
  obtain ⟨data, hd, -, hl⟩ := h.of_valueIn hv
  constructor
  case list =>
    refine ⟨_, hall, ?_, ?_, h.readUnsignedList_gives hP hu hd⟩
    · rw [List.length_map, List.length_range]
    · rw [Value.firstUnsigned?_eq, hall, Option.bind_some]
  case first =>
    intro hc
    have hone : e.isInline = true ∨ e.type.width ≤ limits.single :=
      hl.imp_right (Nat.le_trans (Nat.le_mul_of_pos_left _ hc))
    exact ⟨_, hfirst hc, h.readUnsigned_gives hP hu hc hone⟩
  case inline =>
    intro n hn
    have hc : e.count = 1 := by
      unfold inlineUnsigned? at hn
      split at hn
      · next hone => exact hone.1
      · cases hn
    rw [hfirst (by omega), inlineUnsigned?_eq_some hn]

/-- What is no unsigned integer is refused before the stream is asked for anything. -/
theorem readUnsigned_refused (hu : e.type.isUnsigned = false) (s : σ) :
    e.readUnsigned order limits s =
      .error (.invalidValue e.label (.notUnsigned e.type e.count)) s := by
  have hnone : e.inlineUnsigned? order = none := by
    rw [inlineUnsigned?, if_neg (by simp [hu])]
  rw [readUnsigned, hnone]
  dsimp only
  rw [if_pos (by simp [hu]), throw_bind]

/-- A list of numbers of another type is refused before the stream is asked. -/
theorem readUnsignedList_refused (hu : e.type.isUnsigned = false) (s : σ) :
    e.readUnsignedList order limits s =
      .error (.invalidValue e.label (.notUnsignedList e.type)) s := by
  rw [readUnsignedList, if_pos (by simp [hu]), throw_bind]

end Entry

namespace Directory

variable {options : Options} {catalog : Catalog} {offset : Nat} {d : Directory}

/-- Whenever the values of an entry are read and are unsigned integers, all other ways to read them
answer the same. Entries of all other types are refused by the readers of unsigned integers, which
leave the stream as it is. -/
theorem unsignedReads_agree {σ : Type} [Stream σ] {P : σ → Prop} (hP : Serves P content)
    (hw : content.size ≤ Word.max) {s s' : σ} (hs : P s)
    (hd : read header options catalog offset s = .ok d s') :
    ∀ e ∈ d.entries,
      (e.type.isUnsigned = true → ∀ {limits : Limits} {t t' : σ} {v : Value}, P t →
        e.readValue header.order limits t = .ok v t' → e.ReadsAlike P header.order limits v) ∧
      (e.type.isUnsigned = false → ∀ {τ : Type} [Stream τ] (limits : Limits) (t : τ),
        e.readUnsigned header.order limits t =
            .error (.invalidValue e.label (.notUnsigned e.type e.count)) t ∧
          e.readUnsignedList header.order limits t =
            .error (.invalidValue e.label (.notUnsignedList e.type)) t) := by
  obtain ⟨hdir, hstored⟩ := isStored_of_parse hw ((exists_read_iff hP hs).1 ⟨s', hd⟩)
  intro e he
  constructor
  · intro hu limits t t' v ht hv
    have hin := (e.exists_readValue_iff hP ht).1 ⟨t', hv⟩
    exact (hstored.within hdir e he).readsAlike hP hu hin
  · intro hu τ _ limits t
    exact ⟨e.readUnsigned_refused hu t, e.readUnsignedList_refused hu t⟩

/-- A directory at 8 with three bytes and a long word in their value fields, and three short words
and a fraction behind it. -/
def mixedWords : ByteArray := ⟨#[
  0x4D, 0x4D, 0, 42, 0, 0, 0, 8,
  0, 4,
  1, 0, 0, 1, 0, 0, 0, 3, 7, 8, 9, 0,
  1, 1, 0, 4, 0, 0, 0, 1, 0, 1, 0, 0,
  1, 17, 0, 3, 0, 0, 0, 3, 0, 0, 0, 62,
  1, 26, 0, 5, 0, 0, 0, 1, 0, 0, 0, 68,
  0, 0, 0, 0,
  0, 1, 0, 2, 1, 0,
  0, 0, 0, 72, 0, 0, 0, 1]⟩

/-- The short words may be read where a buffer may have six bytes, and then in every way. The
fraction is refused as an integer. -/
theorem unsignedReads_agree_mixedWords :
    ∃ d s', read ⟨.big, .narrow, 8⟩ {} .standard 8 (Memory.ofBytes mixedWords) = .ok d s' ∧
      (∃ e ∈ d.entries, ∃ t', e.type.isUnsigned = true ∧
        e.readValue .big { single := 6 } (Memory.ofBytes mixedWords) =
          .ok (.short [1, 2, 256]) t' ∧
        e.ReadsAlike (Memory.Holds mixedWords) .big { single := 6 } (.short [1, 2, 256])) ∧
      ∃ e ∈ d.entries, e.type.isUnsigned = false ∧
        e.readUnsigned .big {} (Memory.ofBytes mixedWords) =
          .error (.invalidValue "tag 282" (.notUnsigned .rational 1))
            (Memory.ofBytes mixedWords) := by
  obtain ⟨d, s', hd, ⟨e, he, hu, v, t', hv, rfl⟩, r, hr, hrational, hone, htag⟩ :
      Yields (read ⟨.big, .narrow, 8⟩ {} .standard 8) (Memory.ofBytes mixedWords) fun d _ =>
        (∃ e ∈ d.entries, e.type.isUnsigned = true ∧
          Yields (e.readValue .big { single := 6 }) (Memory.ofBytes mixedWords) fun v _ =>
            v = .short [1, 2, 256]) ∧
        ∃ e ∈ d.entries, e.type = .rational ∧ e.count = 1 ∧ e.tag = 282 := by
    decide +kernel
  have hs : Memory.Holds mixedWords (Memory.ofBytes mixedWords) :=
    Memory.holds_ofBytes (by decide)
  have h := unsignedReads_agree (Memory.serves mixedWords) (by decide) hs hd
  have hnot : r.type.isUnsigned = false := by rw [hrational]; rfl
  have hrefused := (((h r hr).2 hnot) {} (Memory.ofBytes mixedWords)).1
  have hlabel : r.label = "tag 282" := by rw [Entry.label, htag]; decide
  rw [hrational, hone, hlabel] at hrefused
  exact ⟨d, s', hd, ⟨e, he, t', hu, hv, (h e he).1 hu hs hv⟩, r, hr, hnot, hrefused⟩

end Directory

end TaggedImage
