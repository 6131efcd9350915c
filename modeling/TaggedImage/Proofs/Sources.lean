import TaggedImage.Proofs.Transparency
import TaggedImage.Stream.Reader

/-!
# Streams with the same content

`Presents` says all that exact reads can tell of a stream: the size of its content, the bytes of
every range of it, and the error for any other range. A stream in memory presents what it holds. A
reader presents what its source holds, however few bytes the source gives at a time
(`Reader.presents`), and so does a cache in front of either (`Contract.presents`).
-/

namespace TaggedImage

variable {σ τ : Type} {content : ByteArray}

/-- In the states of `P` the stream answers every exact read from `content`, and it can be
closed. -/
structure Presents [Stream σ] (P : σ → Prop) (content : ByteArray) : Prop
    extends Serves P content where
  outside : ∀ {s} offset len, P s → content.size < offset + len →
    ∃ s', P s' ∧
      Stream.readExactAt offset len s = .error (.outOfBounds offset len content.size) s'
  close : ∀ {s}, P s → ∃ s', Channel.close s = .ok ⟨⟩ s'

/-- A stream in memory presents its content. -/
theorem Memory.presents (content : ByteArray) : Presents (Holds content) content where
  toServes := serves content
  outside _ _ h hr := ⟨_, h, h.readExactAt_outside hr⟩
  close _ := ⟨_, rfl⟩

/-! ## Sources -/

/-- In the states of `V` the source holds `content`. Asked for some of it, the source gives at least
one byte, and it may give fewer than it is asked for. -/
structure Source.Holds [Source τ] (V : τ → Prop) (content : ByteArray) : Prop where
  length : ∀ {s}, V s → ∃ s', V s' ∧ Source.length s = .ok content.size s'
  read : ∀ {s} offset want, V s → 0 < want → offset + want ≤ content.size →
    ∃ n s', 0 < n ∧ n ≤ want ∧ V s' ∧
      Source.readAt offset want s = .ok (content.extract offset (offset + n)) s'

/-- In the states of `V` the source has the bytes `held`, whatever `size` it tells. Asked for bytes
up to that size, it gives a first part of those it has, at least one if there is one, or it fails
with a text that `Failure` admits. -/
structure Source.Supplies [Source τ] (V : τ → Prop) (held : ByteArray) (size : Nat)
    (Failure : String → Prop) : Prop where
  read : ∀ {s} offset want, V s → 0 < want → offset + want ≤ size →
    Ends (Source.readAt offset want) s
      (fun piece s' => piece.size ≤ want ∧ (offset < held.size → piece.size ≠ 0) ∧
        piece = held.extract offset (offset + piece.size) ∧ V s')
      (fun text s' => Failure text ∧ V s')

/-- A source that holds a content supplies it. -/
theorem Source.Holds.supplies [Source τ] {V : τ → Prop} (hV : Source.Holds V content) :
    Source.Supplies V content content.size (fun _ => False) where
  read offset want hv h0 hw := by
    obtain ⟨n, s', hn, hle, hv', hr⟩ := hV.read offset want hv h0 hw
    have hpiece : (content.extract offset (offset + n)).size = n := by
      rw [ByteArray.size_extract]
      omega
    exact .of_ok hr ⟨by omega, by omega, by rw [hpiece], hv'⟩

namespace Reader

variable [Source τ] {V : τ → Prop} {r : Reader τ}

/-- The reader is open on a source that holds the content. -/
structure Reads (V : τ → Prop) (content : ByteArray) (r : Reader τ) : Prop where
  source : ∃ s, r.source = some s ∧ V s
  size : r.size = content.size

omit [Source τ] in
/-- The cursor may stand anywhere. -/
theorem Reads.withPosition (h : r.Reads V content) (pos : Nat) :
    Reads V content { r with position := pos } :=
  ⟨h.source, h.size⟩

/-- A source that holds a content is opened as a reader of it. -/
theorem ofSource_eq (hV : Source.Holds V content) {source : τ} (hs : V source) (name : String) :
    ∃ r, ofSource source name = .ok r ∧ r.Reads V content := by
  obtain ⟨s', hs', hl⟩ := hV.length hs
  refine ⟨{ source := some s', size := content.size, name := name }, ?_, ⟨s', rfl, hs'⟩, rfl⟩
  rw [ofSource, hl]

omit [Source τ] in
/-- An open reader moves its cursor without asking the source. -/
theorem seek_start {s : τ} (hs : r.source = some s) {offset : Nat} (ho : offset ≤ Word.max) :
    Reader.seek (.start offset) r = .ok offset { r with position := offset } := by
  rw [seek, hs, Option.isNone_some, if_neg Bool.false_ne_true, SeekTarget.resolve_start _ _ ho]

/-- A reader of a content moves its cursor without asking the source. -/
theorem Reads.seek_start (h : r.Reads V content) {offset : Nat} (ho : offset ≤ Word.max) :
    Channel.seek (.start offset) r = .ok offset { r with position := offset } := by
  obtain ⟨s, hs, -⟩ := h.source
  exact Reader.seek_start hs ho

/-- A seek to a position that is no word is refused. -/
theorem Reads.seek_start_of_lt (h : r.Reads V content) {offset : Nat} (ho : Word.max < offset) :
    Channel.seek (.start offset) r = .error (.invalidSeek offset) r := by
  obtain ⟨s, hs, -⟩ := h.source
  show Reader.seek (.start offset) r = _
  rw [seek, hs, Option.isNone_some, if_neg Bool.false_ne_true,
    SeekTarget.resolve_start_of_lt _ _ ho]

/-- A reader gives what its source has up to the size that the source told, as many bytes at a time
as the source gives, and takes none. -/
def piecemeal {held : ByteArray} {size : Nat} {Failure : String → Prop}
    (hV : Source.Supplies V held size Failure) : Piecemeal (Reader τ) where
  Valid r := (∃ s, r.source = some s ∧ V s) ∧ r.size = size
  content _ := held.extract 0 size
  cursor := position
  ReadFailure e := ∃ text, e = .backend text ∧ Failure text
  WriteFailure e := ∃ name, e = .readOnly name
  read {r} want := by
    rintro ⟨⟨s, hs, hv⟩, rfl⟩ h0
    show Ends (Reader.read want) r _ _
    by_cases hend : r.size ≤ r.position
    · refine .of_ok (a := .empty) (t := r) ?_ ⟨Nat.zero_le _, ?_, ?_, ⟨⟨s, hs, hv⟩, rfl⟩, rfl, rfl⟩
      · rw [Reader.read, hs]
        exact if_pos hend
      · rw [ByteArray.size_extract]
        omega
      · rw [ByteArray.size_empty, Nat.add_zero, ByteArray.extract_same]
    · have hsource := hV.read r.position (min want (r.size - r.position)) hv (by omega) (by omega)
      cases hx : Source.readAt r.position (min want (r.size - r.position)) s with
      | ok piece s' =>
        obtain ⟨hmax, hsome, hpiece, hv'⟩ := hsource.ok hx
        refine .of_ok (a := piece)
          (t := { r with source := some s', position := r.position + piece.size }) ?_
          ⟨by omega, ?_, ?_, ⟨⟨s', rfl, hv'⟩, rfl⟩, rfl, rfl⟩
        · rw [Reader.read, hs]
          dsimp only
          rw [if_neg hend, hx]
        · rw [ByteArray.size_extract]
          exact fun hin => hsome (by omega)
        · rw [ByteArray.extract_extract, Nat.zero_add, Nat.zero_add, Nat.min_eq_left (by omega)]
          exact hpiece
      | error text s' =>
        obtain ⟨hfail, hv'⟩ := hsource.error hx
        refine .of_error (e := .backend text) (t := { r with source := some s' }) ?_
          ⟨⟨text, rfl, hfail⟩, ⟨⟨s', rfl, hv'⟩, rfl⟩, rfl⟩
        rw [Reader.read, hs]
        dsimp only
        rw [if_neg hend, hx]
  seek {r} offset := by
    rintro ⟨⟨s, hs, hv⟩, rfl⟩ ho
    exact .of_ok (seek_start hs ho) ⟨⟨⟨s, hs, hv⟩, rfl⟩, rfl, rfl⟩
  write {r} _ h := Ends.of_error rfl ⟨⟨r.name, rfl⟩, h, rfl, rfl⟩

/-- Pieces are read until all that is wanted is there. -/
theorem Reads.fill (hV : Source.Holds V content) (h : r.Reads V content) {offset len : Nat}
    (hr : offset + len ≤ content.size) (hp : r.position = offset) :
    ∃ r', Reads V content r' ∧
      Channel.fill offset len .empty r = .ok (content.extract offset (offset + len)) r' := by
  have hh : (piecemeal hV.supplies).Has content r :=
    ⟨⟨h.source, h.size⟩, ByteArray.extract_zero_size⟩
  have hempty : ByteArray.empty = content.extract offset (offset + ByteArray.empty.size) := by
    rw [ByteArray.size_empty, Nat.add_zero, ByteArray.extract_same]
  have hfill := hh.fill_ends hempty hp (Nat.zero_le len)
  cases hx : Channel.fill offset len .empty r with
  | ok data r' =>
    obtain ⟨-, rfl, ⟨hs, hsize⟩, -⟩ := hfill.ok hx
    exact ⟨r', ⟨hs, hsize⟩, rfl⟩
  | error e r' =>
    obtain ⟨⟨text, -, hfail⟩ | ⟨hlt, -⟩, -⟩ := hfill.error hx
    · exact hfail.elim
    · omega

/-- An exact read gives a part of the content, in however many pieces it comes. -/
theorem Reads.readExactAt (hV : Source.Holds V content) (hw : content.size ≤ Word.max)
    (h : r.Reads V content) {offset len : Nat} (hr : offset + len ≤ content.size) :
    ∃ r', Reads V content r' ∧
      Stream.readExactAt offset len r = .ok (content.extract offset (offset + len)) r' := by
  by_cases h0 : len = 0
  · subst h0
    rw [Nat.add_zero, ByteArray.extract_same]
    exact ⟨r, h, Channel.readRange_zero h.size hr⟩
  · obtain ⟨r', h', hfill⟩ := (h.withPosition offset).fill hV hr rfl
    exact ⟨r', h', (Channel.readRange_of_seek h.size hr h0 (h.seek_start (by omega))).trans hfill⟩

/-- A range outside is refused before the source is asked. -/
theorem Reads.readExactAt_outside (h : r.Reads V content) {offset len : Nat}
    (hr : content.size < offset + len) :
    Stream.readExactAt offset len r = .error (.outOfBounds offset len content.size) r :=
  Channel.readRange_outside h.size hr

/-- A reader presents what its source holds, whatever pieces the source gives. -/
theorem presents (hV : Source.Holds V content) (hw : content.size ≤ Word.max) :
    Presents (Reads V content) content where
  size h := h.size
  read _ _ h hr := h.readExactAt hV hw hr
  outside _ _ h hr := ⟨_, h, h.readExactAt_outside hr⟩
  close _ := ⟨_, rfl⟩

/-- A reader keeps the promise of a stream behind a cache, and never fails within the content. -/
def contract (hV : Source.Holds V content) (hw : content.size ≤ Word.max) :
    Contract (Reader τ) where
  Valid := Reads V content
  content _ := content
  cursor := position
  Failure _ := False
  size h := h.size
  read _ _ h hr := by
    obtain ⟨r', hr', he⟩ := h.readExactAt hV hw hr
    exact .of_ok he ⟨rfl, hr', rfl⟩
  seek offset h := by
    by_cases ho : offset ≤ Word.max
    · exact .of_ok (h.seek_start ho) ⟨h.withPosition offset, rfl, rfl⟩
    · exact .of_error (h.seek_start_of_lt (Nat.lt_of_not_le ho)) ⟨h, rfl⟩
  write _ h := Ends.of_error rfl ⟨h, rfl⟩

end Reader

/-! ## Caches -/

/-- A cache in front of a stream that never fails within its content presents that content. -/
theorem Contract.presents {μ : Type} [BlockMap μ] [LawfulBlockMap μ] [Stream σ] (K : Contract σ)
    (hfail : ∀ e, ¬ K.Failure e) (hclose : ∀ s : σ, ∃ s', Channel.close s = .ok ⟨⟩ s')
    (content : ByteArray) :
    Presents (fun c : Cached σ μ => K.Fresh c ∧ K.content c.inner = content) content where
  size := fun ⟨h, hc⟩ => hc ▸ h.size
  read {c} offset len := by
    rintro ⟨h, rfl⟩ hr
    have he := h.readExactAt_ends hr
    cases hread : Cached.readExactAt offset len c with
    | ok data c' =>
      obtain ⟨hst, rfl⟩ := he.ok hread
      exact ⟨c', ⟨hst.fresh, hst.content⟩, hread⟩
    | error e c' => exact absurd (he.error hread).2 (hfail e)
  outside {c} offset len := by
    rintro ⟨h, rfl⟩ hr
    exact ⟨c, ⟨h, rfl⟩, h.readExactAt_outside hr⟩
  close {c} _ := by
    obtain ⟨s', hs'⟩ := hclose c.inner
    exact ⟨_, by
      show Cached.onInner Channel.close { c with blocks := BlockMap.clear c.blocks } = _
      rw [Cached.onInner, hs']⟩

end TaggedImage
