import TaggedImage.Proofs.Session

/-!
# What a stream is asked for

A `Watched` stream records the ranges that it is asked for. Every request of a session but one
checks where a range lies before it asks for it. The count of directories asks for the bytes of an
entry count wherever the chain leads (`Browser.countFrom_asks`), and this is the only way in which a
range outside the content is asked for: a run asks for none just if it counts no directories, or all
the entry counts that the count looks at lie within the content (`Session.after_asks`).
-/

namespace TaggedImage

open FileM

variable {σ : Type} {P : σ → Prop} {content : ByteArray}

/-! ## Watched streams -/

/-- A stream and the ranges that were asked of it. -/
structure Watched (σ : Type) where
  inner : σ
  asked : List (Nat × Nat) := []

/-- The range lies within the content. -/
def Within (content : ByteArray) (r : Nat × Nat) : Prop := r.1 + r.2 ≤ content.size

namespace Watched

/-- A call on the stream that is watched. -/
def onInner {α : Type} (call : StreamM σ α) : StreamM (Watched σ) α := fun w =>
  match call w.inner with
  | .ok a inner => .ok a { w with inner := inner }
  | .error e inner => .error e { w with inner := inner }

instance [Channel σ] : Channel (Watched σ) where
  size w := Channel.size w.inner
  name w := Channel.name w.inner
  read want := onInner (Channel.read want)
  write data := onInner (Channel.write data)
  seek target := onInner (Channel.seek target)
  close := onInner Channel.close

instance [Stream σ] : Stream (Watched σ) where
  readExactAt offset len w :=
    onInner (Stream.readExactAt offset len) { w with asked := w.asked ++ [(offset, len)] }

/-- Since `asked` was recorded, the stream was asked for ranges of the content only. -/
structure Inside (P : σ → Prop) (content : ByteArray) (asked : List (Nat × Nat))
    (w : Watched σ) : Prop where
  inner : P w.inner
  since : ∃ more, w.asked = asked ++ more ∧ ∀ r ∈ more, Within content r

/-- A watched stream was asked for nothing since now, so it is `Inside` as it is. -/
theorem inside_self {w : Watched σ} (h : P w.inner) : w.Inside P content w.asked where
  inner := h
  since := ⟨[], (List.append_nil _).symm, fun _ hr => absurd hr List.not_mem_nil⟩

variable [Stream σ]

/-- A watched stream answers an exact read as the stream itself does, and records it. -/
theorem readExactAt_eq (offset len : Nat) {s s' : σ} {r : Except Fault ByteArray}
    (asked : List (Nat × Nat)) (h : FileM.readExactAt offset len s = answer s' r) :
    FileM.readExactAt offset len (Watched.mk s asked) =
      answer (Watched.mk s' (asked ++ [(offset, len)])) r := by
  have hwatched : (Stream.readExactAt offset len : StreamM (Watched σ) ByteArray) ⟨s, asked⟩ =
      onInner (Stream.readExactAt offset len) ⟨s, asked ++ [(offset, len)]⟩ := rfl
  rw [FileM.readExactAt, FileM.ofStream] at h ⊢
  rw [hwatched, onInner]
  cases hr : (Stream.readExactAt offset len : StreamM σ ByteArray) s with
  | ok data t =>
    rw [hr] at h
    obtain ⟨rfl, rfl⟩ := answer_inj (r := .ok data) h
    rfl
  | error e t =>
    rw [hr] at h
    obtain ⟨rfl, rfl⟩ := answer_inj (r := .error (.stream e)) h
    rfl

/-- A watched stream serves what the stream itself does, and is asked for no more. -/
theorem serves_inside (hP : Serves P content) (asked : List (Nat × Nat)) :
    Serves (Inside P content asked) content where
  size h := hP.size h.inner
  read {w} offset len h hr := by
    obtain ⟨s, hs, he⟩ := hP.read offset len h.inner hr
    obtain ⟨more, ha, hm⟩ := h.since
    refine ⟨⟨s, w.asked ++ [(offset, len)]⟩, ⟨hs, more ++ [(offset, len)], ?_, fun r hr' => ?_⟩, ?_⟩
    · rw [ha, List.append_assoc]
    · rcases List.mem_append.1 hr' with hr' | hr'
      · exact hm r hr'
      · cases List.mem_singleton.1 hr'
        exact hr
    · show onInner _ _ = _
      rw [onInner, he]

/-- Watching a stream does not change what it serves. -/
theorem serves (hP : Serves P content) : Serves (fun w : Watched σ => P w.inner) content where
  size h := hP.size h
  read {w} offset len h hr := by
    obtain ⟨s, hs, he⟩ := hP.read offset len h hr
    refine ⟨⟨s, w.asked ++ [(offset, len)]⟩, hs, ?_⟩
    show onInner _ _ = _
    rw [onInner, he]

/-- Watching a stream changes nothing of what it refuses. -/
theorem refuses (hR : Refuses P content) : Refuses (fun w : Watched σ => P w.inner) content where
  word h := hR.word h
  read {w} offset len h hr := by
    obtain ⟨e, s, hne, hs, he⟩ := hR.read offset len h hr
    refine ⟨e, ⟨s, w.asked ++ [(offset, len)]⟩, hne, hs, ?_⟩
    show onInner _ _ = _
    rw [onInner, he]

end Watched

/-! ## What a count asks for -/

namespace Browser

/-- The offset of the directory after the one at `offset`, if the content holds its entry count and
the offset. -/
def peekIn (header : Header) (content : ByteArray) (offset : Nat) : Option Nat :=
  if offset + header.width.countSize ≤ content.size then
    (nextOffsetIn header content offset).toOption
  else none

/-- The ranges that are asked for to find the directory after the one at `offset`. -/
def peekRanges (header : Header) (content : ByteArray) (offset : Nat) : List (Nat × Nat) :=
  let count := header.order.numberAt content offset header.width.countSize
  let pos := offset + header.width.countSize + count * header.width.entrySize
  (offset, header.width.countSize) ::
    if offset + header.width.countSize ≤ content.size ∧
      pos + header.width.offsetSize ≤ content.size then [(pos, header.width.offsetSize)] else []

/-- The offsets at which a count that goes on from `offset` looks for a directory, at most `n`. -/
def counted (header : Header) (content : ByteArray) (visited : List Nat) (offset : Nat) :
    (n : Nat) → List Nat
  | 0 => []
  | n + 1 =>
    if offset = 0 ∨ offset ∈ visited then []
    else
      offset :: match peekIn header content offset with
        | none => []
        | some next => counted header content (offset :: visited) next n

/-- All entry counts at which a count of the directories looks, at most `n`, lie within the
content. -/
def CountsWithin (header : Header) (content : ByteArray) (n : Nat) : Prop :=
  ∀ offset ∈ counted header content [] header.first n,
    offset + header.width.countSize ≤ content.size

instance (header : Header) (content : ByteArray) (n : Nat) :
    Decidable (CountsWithin header content n) :=
  inferInstanceAs (Decidable (∀ offset ∈ _, _))

/-- Of the ranges at an offset only that of the entry count may lie outside the content. -/
theorem peekRanges_within_iff (header : Header) (offset : Nat) :
    (∀ r ∈ peekRanges header content offset, Within content r) ↔
      offset + header.width.countSize ≤ content.size := by
  unfold peekRanges
  dsimp only
  rw [List.forall_mem_cons]
  refine ⟨fun h => h.1, fun h => ⟨h, fun r hr => ?_⟩⟩
  split at hr
  · next hfit =>
    cases List.mem_singleton.1 hr
    exact hfit.2
  · cases hr

variable [Stream σ] {header : Header}

/-- Where the content holds the entry count, the next offset is asked for if the content holds it
too. -/
theorem nextOffset_asks_within (hP : Serves P content) (hword : content.size ≤ Word.max) {s : σ}
    (hs : P s) (asked : List (Nat × Nat)) {offset : Nat}
    (hr : offset + header.width.countSize ≤ content.size) :
    ∃ s', P s' ∧ nextOffset header offset (Watched.mk s asked) =
      answer (Watched.mk s' (asked ++ peekRanges header content offset))
        (nextOffsetIn header content offset) := by
  have hsize := size_of_serves (Watched.serves hP) (s := ⟨s, asked⟩) hs
  obtain ⟨s₁, hs₁, hcount⟩ := gives_readExactAt hP hr s hs
  have hcount := Watched.readExactAt_eq offset header.width.countSize asked hcount
  have hnumber : Directory.readNumber header.order offset header.width.countSize
      (Watched.mk s asked) = .ok (header.order.numberAt content offset header.width.countSize)
        (Watched.mk s₁ (asked ++ [(offset, header.width.countSize)])) := bind_of_ok hcount
  unfold nextOffset nextOffsetIn peekRanges
  rw [bind_of_ok hsize]
  dsimp only
  rw [bind_of_ok hnumber]
  generalize header.order.numberAt content offset header.width.countSize = count
  cases hlen : Word.mul? count header.width.entrySize with
  | none =>
    have hfar : Word.max < count * header.width.entrySize := by grind [Word.mul?]
    rw [if_neg (by omega)]
    exact ⟨s₁, hs₁, rfl⟩
  | some len =>
    obtain ⟨rfl, -⟩ := Word.mul?_eq_some_iff.1 hlen
    dsimp only
    rw [bind_of_ok (sum_eq (by omega) _)]
    by_cases hfit : offset + header.width.countSize + count * header.width.entrySize +
        header.width.offsetSize ≤ content.size
    · obtain ⟨s₂, hs₂, hlink⟩ := gives_readExactAt hP hfit s₁ hs₁
      have hlink := Watched.readExactAt_eq _ _ (asked ++ [(offset, header.width.countSize)]) hlink
      rw [if_neg (Nat.not_lt.2 hfit), if_neg (Nat.not_lt.2 hfit), if_pos ⟨hr, hfit⟩]
      refine ⟨s₂, hs₂, (bind_of_ok hlink).trans ?_⟩
      rw [List.append_assoc]
      rfl
    · rw [if_pos (Nat.lt_of_not_le hfit), if_pos (Nat.lt_of_not_le hfit), if_neg fun h => hfit h.2]
      exact ⟨s₁, hs₁, rfl⟩

/-- What a count asks for at one offset, and what it finds there. -/
theorem nextOffset_asks (hP : Serves P content) (hR : Refuses P content) {s : σ} (hs : P s)
    (asked : List (Nat × Nat)) (offset : Nat) :
    ∃ r s', P s' ∧ nextOffset header offset (Watched.mk s asked) =
        answer (Watched.mk s' (asked ++ peekRanges header content offset)) r ∧
      (∀ fault, r = .error fault → fault.stops = false) ∧
      r.toOption = peekIn header content offset := by
  by_cases hr : offset + header.width.countSize ≤ content.size
  · obtain ⟨s', hs', hnext⟩ := nextOffset_asks_within hP (hR.word hs) hs asked hr
    refine ⟨_, s', hs', hnext, fun fault h => ?_, (if_pos hr).symm⟩
    have hanswers :
        Answers (·.stops = false) (fun _ => True) (nextOffsetIn header content offset) :=
      answers_nextOffsetIn offset
    rwa [h] at hanswers
  · have hsize := size_of_serves (Watched.serves hP) (s := ⟨s, asked⟩) hs
    obtain ⟨e, s', hne, hs', he⟩ :=
      hR.read offset header.width.countSize hs (Nat.lt_of_not_le hr)
    have hcount : FileM.readExactAt offset header.width.countSize s =
        answer s' (.error (.stream e)) := by
      rw [FileM.readExactAt, FileM.ofStream, he]
      rfl
    have hcount := Watched.readExactAt_eq offset header.width.countSize asked hcount
    have hranges : peekRanges header content offset = [(offset, header.width.countSize)] := by
      rw [peekRanges, if_neg fun h => hr h.1]
    refine ⟨.error (.stream e), s', hs', ?_, fun fault h => ?_, (if_neg hr).symm⟩
    · rw [hranges]
      exact (bind_of_ok hsize).trans (bind_of_error (bind_of_error hcount))
    · cases h
      exact Fault.stops_stream hne

/-- What a count asks for: at every offset that it looks at, what finds the next one. -/
theorem countFrom_asks (hP : Serves P content) (hR : Refuses P content) {b : Browser (Watched σ)}
    (hb : P b.stream.inner) (hheader : b.header = header) (visited : List Nat) (offset n : Nat) :
    ∃ k s, P s ∧ countFrom visited offset n b = .ok k { b with
      stream := Watched.mk s (b.stream.asked ++
        (counted header content visited offset n).flatMap (peekRanges header content)) } := by
  -- the ranges of the first offset come before those of the others
  induction n generalizing b visited offset with
  | zero => exact ⟨_, b.stream.inner, hb, by rw [counted, List.flatMap_nil, List.append_nil]; rfl⟩
  | succ n ih =>
    rw [counted]
    by_cases hstop : offset = 0 ∨ offset ∈ visited
    · rw [if_pos hstop, List.flatMap_nil, List.append_nil]
      exact ⟨_, b.stream.inner, hb, countFrom_of_stop hstop⟩
    · rw [if_neg hstop, List.flatMap_cons]
      subst hheader
      obtain ⟨r, s, hs, hr, hstops, hpeek⟩ := nextOffset_asks hP hR hb b.stream.asked offset
      cases r with
      | error fault =>
        have hnone : peekIn b.header content offset = none := hpeek.symm
        refine ⟨visited.length + 1, s, hs, ?_⟩
        rw [countFrom_of_error hstop hr, hstops fault rfl, hnone, List.flatMap_nil, List.append_nil]
        rfl
      | ok next =>
        have hsome : peekIn b.header content offset = some next := hpeek.symm
        obtain ⟨k, s', hs', hk⟩ :=
          ih (b := { b with stream := ⟨s, b.stream.asked ++ peekRanges b.header content offset⟩ })
            hs rfl (offset :: visited) next
        refine ⟨k, s', hs', (countFrom_of_ok hstop hr).trans (hk.trans ?_)⟩
        rw [hsome]
        dsimp only
        rw [List.append_assoc]

end Browser

/-! ## What a session asks for -/

namespace Session

variable [Stream σ] {header : Header} {options : Options}

/-- The session with a watched stream is intact, whatever was asked for. -/
abbrev IntactWatched (P : σ → Prop) (content : ByteArray) (header : Header) (options : Options) :
    Session (Watched σ) → Prop :=
  Intact (fun w => P w.inner) content header options

/-- One request asks for ranges of the content, unless it counts the directories and comes to an
entry count that does not lie there. -/
theorem run_asks (hP : Serves P content) (hR : Refuses P content) (codecs : Codecs)
    (request : Request) {s : Session (Watched σ)} (hs : IntactWatched P content header options s) :
    ∃ more, (leaves (run codecs request) s).browser.stream.asked =
        s.browser.stream.asked ++ more ∧
      ((∀ r ∈ more, Within content r) ↔
        (request = .count → Browser.CountsWithin header content options.limits.directories)) := by
  by_cases hcount : request = .count
  · subst hcount
    obtain ⟨k, b, hcount, hasked⟩ : ∃ k b, Browser.count s.browser = .ok k b ∧
        b.stream.asked = s.browser.stream.asked ++
          (Browser.counted header content [] header.first options.limits.directories).flatMap
            (Browser.peekRanges header content) := by
      obtain ⟨k, t, -, hk⟩ := Browser.countFrom_asks hP hR hs.browser.stream hs.browser.header []
        s.browser.header.first s.browser.options.limits.directories
      refine ⟨k, _, hk, ?_⟩
      rw [hs.browser.header, hs.browser.options]
    have hbrowser : onBrowser Browser.count s = .ok k { s with browser := b } := by
      rw [onBrowser, hcount]
    rw [leaves_of_ok (show run codecs .count s = .ok (.numbers [k]) _ from bind_of_ok hbrowser)]
    refine ⟨_, hasked, ?_⟩
    simp only [forall_const, List.forall_mem_flatMap, Browser.peekRanges_within_iff]
    rfl
  · have hinside := Watched.serves_inside hP s.browser.stream.asked
    have hstart : Intact (Watched.Inside P content s.browser.stream.asked) content header options
        s :=
      ⟨⟨Watched.inside_self hs.browser.stream, hs.browser.header, hs.browser.options,
        hs.browser.current⟩, hs.directories, hs.layouts⟩
    have hafter := (run_confined hinside codecs request fun h => absurd h hcount).leaves hstart
    obtain ⟨more, hmore, hall⟩ := hafter.browser.stream.since
    exact ⟨more, hmore, fun _ h => absurd h hcount, fun _ => hall⟩

/-- A run of requests asks for ranges of the content, unless it counts directories and a count comes
to an entry count outside. -/
theorem after_asks (hP : Serves P content) (hR : Refuses P content) (codecs : Codecs)
    (requests : List Request) {s : Session (Watched σ)}
    (hs : IntactWatched P content header options s) :
    ∃ more, (after codecs requests s).browser.stream.asked = s.browser.stream.asked ++ more ∧
      ((∀ r ∈ more, Within content r) ↔ (.count ∈ requests →
        Browser.CountsWithin header content options.limits.directories)) := by
  induction requests generalizing s with
  | nil =>
    refine ⟨[], (List.append_nil _).symm, fun _ h => absurd h List.not_mem_nil, fun _ => nofun⟩
  | cons request requests ih =>
    obtain ⟨first, hfirst, hfirstIff⟩ := run_asks hP hR codecs request hs
    have hnext : IntactWatched P content header options (leaves (run codecs request) s) :=
      (answers_confined (Watched.serves hP) codecs [request]
        (fun _ => Watched.refuses hR) hs).2
    obtain ⟨more, hmore, hmoreIff⟩ := ih hnext
    refine ⟨first ++ more, ?_, ?_⟩
    · rw [after, List.foldl_cons, ← after, hmore, hfirst, List.append_assoc]
    · rw [List.forall_mem_append, hfirstIff, hmoreIff, List.mem_cons, eq_comm]
      exact ⟨fun h hc => hc.elim h.1 h.2, fun h => ⟨fun hc => h (.inl hc), fun hc => h (.inr hc)⟩⟩

/-- Every session with a file in memory, whatever its bytes and however it is opened, is confined to
the content. No request fails because the stream refuses a range, and values and stored units are
the bytes that the file declares and not above the limit. The stream is asked for ranges of the content
only, just if no directories are counted or all entry counts at which a count looks lie within. -/
theorem confined_ofStream {m : Memory} (hm : m.Holds content) (options : Options)
    (catalog : Catalog) (codecs : Codecs) (requests : List Request) :
    Answers (Fault.IsOwn content)
        (fun s => ∀ r ∈ answers codecs requests s, Answers (Fault.IsOwn content)
          (Answer.Sound s.browser.header.order options.limits content) r)
        (ofStream m options catalog) ∧
      Answers (Fault.IsOwn content)
        (fun s => (∀ r ∈ (after codecs requests s).browser.stream.asked,
            r.1 + r.2 ≤ content.size) ↔
          (.count ∈ requests →
            Browser.CountsWithin s.browser.header content options.limits.directories))
        (ofStream (Watched.mk m []) options catalog) := by
  have hP := Memory.serves content
  have hR : Refuses (Memory.Holds content) content := Memory.refuses content
  constructor
  · refine (answers_ofStream hP hm options catalog).mono fun s hs => ?_
    exact (answers_confined hP codecs requests (fun _ => hR) hs).1
  · have hw : Watched.Inside (Memory.Holds content) content [] ⟨m, []⟩ :=
      Watched.inside_self (w := ⟨m, []⟩) hm
    refine (answers_ofStream (Watched.serves_inside hP []) hw options catalog).mono fun s hs => ?_
    obtain ⟨opened, hopened, hall⟩ := hs.browser.stream.since
    have hs' : IntactWatched (Memory.Holds content) content s.browser.header options s :=
      ⟨⟨hs.browser.stream.inner, rfl, hs.browser.options, hs.browser.current⟩, hs.directories,
        hs.layouts⟩
    obtain ⟨more, hmore, hiff⟩ := after_asks hP hR codecs requests hs'
    rw [hmore, hopened, List.nil_append, ← hiff, List.forall_mem_append]
    exact ⟨fun h => h.2, fun h => ⟨hall, h⟩⟩

/-- A file of eight bytes that names a directory far behind its end. -/
def pastTheEnd : ByteArray := ⟨#[0x49, 0x49, 42, 0, 0xFF, 0xFF, 0xFF, 0xFF]⟩

/-- A walk and a jump in this file ask for nothing outside, a count does. -/
theorem confined_pastTheEnd :
    (Memory.ofBytes pastTheEnd).Holds pastTheEnd ∧
      Answers (Fault.IsOwn pastTheEnd)
        (fun s => ∀ r ∈ answers .standard [.next, .jump 8, .count] s,
          Answers (Fault.IsOwn pastTheEnd) (Answer.Sound s.browser.header.order {} pastTheEnd) r)
        (ofStream (Memory.ofBytes pastTheEnd) {} .standard) ∧
      Answers (Fault.IsOwn pastTheEnd)
        (fun s => ∀ r ∈ (after .standard [.next, .jump 8] s).browser.stream.asked,
          r.1 + r.2 ≤ pastTheEnd.size)
        (ofStream (Watched.mk (Memory.ofBytes pastTheEnd) []) {} .standard) := by
  have hm : (Memory.ofBytes pastTheEnd).Holds pastTheEnd := Memory.holds_ofBytes (by decide)
  refine ⟨hm, (confined_ofStream hm {} .standard .standard [.next, .jump 8, .count]).1, ?_⟩
  exact (confined_ofStream hm {} .standard .standard [.next, .jump 8]).2.mono fun s h =>
    h.2 fun hc => absurd hc (by decide)

/-- The count asks for the two bytes of an entry count four gigabytes behind the end. -/
theorem count_asks_outside :
    ∃ s, ofStream (Watched.mk (Memory.ofBytes pastTheEnd) []) {} .standard = .ok s ∧
      (4294967295, 2) ∈ (after .standard [.count] s).browser.stream.asked ∧
      ¬ 4294967295 + 2 ≤ pastTheEnd.size := by
  decide +kernel

end Session

end TaggedImage
