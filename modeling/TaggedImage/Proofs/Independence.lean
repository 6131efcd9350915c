import TaggedImage.Proofs.Calls
import TaggedImage.Proofs.Sources

/-!
# Browsing without regard to the stream

What a browser answers depends on the content of its stream and on nothing else. `transcribe` opens
a file, makes some calls and closes the file, and takes down every answer together with the state of
the browser after it. Transcripts over streams that present the same content are equal
(`Presents.transcribe_eq`), so that a file in memory, a reader of any source that holds the same
bytes and a cache in front of either cannot be told apart (`transcribe_eq_ofBytes`).
-/

namespace TaggedImage

open FileM Browser

variable {σ τ : Type} [Stream σ] [Stream τ] {P : σ → Prop} {Q : τ → Prop} {R : σ → τ → Prop}
  {content : ByteArray}

/-! ## Transcripts -/

/-- What a call answers, whatever it leaves. -/
def FileM.answerOf {ε α : Type} : EStateM.Result ε σ α → Except ε α
  | .ok a _ => .ok a
  | .error e _ => .error e

/-- What some calls answer, each with the browser that it leaves but for the stream. -/
def Browser.answersAll (b : Browser σ) : List Call → List (Except Fault Answer × Browser Unit)
  | [] => []
  | call :: calls =>
    let b' := leaves call.run b
    (answerOf (call.run b), b'.withStream ()) :: b'.answersAll calls

/-- What is seen of a file. -/
structure Transcript where
  /-- The browser after the file was opened, but for the stream. -/
  opened : Browser Unit
  /-- The answer to each call, and the browser after it. -/
  calls : List (Except Fault Answer × Browser Unit)
  /-- How closing the file ends. -/
  closed : Except StreamError Unit

/-- Opens a file, makes some calls and closes it. -/
def transcribe (stream : σ) (options : Options) (catalog : Catalog) (calls : List Call) :
    Except Fault Transcript :=
  match Browser.ofStream stream options catalog with
  | .error fault => .error fault
  | .ok b => .ok {
      opened := b.withStream ()
      calls := b.answersAll calls
      closed := answerOf (b.afterCalls calls).close }

/-! ## Related streams -/

omit [Stream σ] [Stream τ] in
/-- Calls that end alike have the same answer. -/
theorem FileM.Alike.answers_eq {α : Type} {x : FileM σ α} {y : FileM τ α} {s : σ} {t : τ}
    (h : Alike R (x s) (y t)) : answerOf (x s) = answerOf (y t) := by
  generalize x s = rx, y t = ry at h
  cases h <;> rfl

/-- The header is the same on streams that echo each other. -/
theorem Browser.readHeader_matches (h : Echoes R) (strict : Bool) :
    Matches R (readHeader strict) (readHeader strict) := by
  refine h.matches_size.bind fun size => (h.read 0 _).bind fun bytes => ?_
  exact .ite (matches_ofExcept _) (matches_ofExcept _)

/-- Files on related streams are opened alike. -/
theorem Browser.ofStream_twin (h : Echoes R) {s : σ} {t : τ} (hR : R s t) (options : Options)
    (catalog : Catalog) :
    (∃ fault, Browser.ofStream s options catalog = .error fault ∧
      Browser.ofStream t options catalog = .error fault) ∨
    ∃ b c, Browser.ofStream s options catalog = .ok b ∧
      Browser.ofStream t options catalog = .ok c ∧ Twin R (fun _ => True) b c := by
  have ha := readHeader_matches h options.strict s t hR
  unfold Browser.ofStream
  generalize readHeader options.strict s = rs, readHeader options.strict t = rt at ha
  cases ha with
  | error => exact .inl ⟨_, rfl, rfl⟩
  | ok hR => exact .inr ⟨_, _, rfl, rfl, trivial, _, hR, rfl⟩

/-- A run of calls answers the same on related browsers, and leaves related browsers. -/
theorem Browser.Twin.answersAll_eq (h : Echoes R) {b : Browser σ} {c : Browser τ}
    (hbc : Twin R (fun _ => True) b c) (calls : List Call) :
    b.answersAll calls = c.answersAll calls ∧
      Twin R (fun _ => True) (b.afterCalls calls) (c.afterCalls calls) := by
  induction calls generalizing b c with
  | nil => exact ⟨rfl, hbc⟩
  | cons call calls ih =>
    have ha := call.run_matches h (fun _ _ _ _ _ => trivial) b c hbc
    obtain ⟨hcalls, hafter⟩ := ih ha.leaves
    refine ⟨?_, hafter⟩
    obtain ⟨-, stream, -, hc⟩ := ha.leaves
    rw [answersAll, answersAll, ha.answers_eq, hcalls, hc]
    rfl

/-- Streams that present the same content answer alike. -/
theorem Presents.echoes (hP : Presents P content) (hQ : Presents Q content) :
    Echoes fun s t => P s ∧ Q t where
  size h := (hP.size h.1).trans (hQ.size h.2).symm
  read offset len := by
    rintro s t ⟨hs, ht⟩
    unfold FileM.readExactAt FileM.ofStream
    by_cases hr : offset + len ≤ content.size
    · obtain ⟨s', hs', hrs⟩ := hP.read offset len hs hr
      obtain ⟨t', ht', hrt⟩ := hQ.read offset len ht hr
      rw [hrs, hrt]
      exact .ok ⟨hs', ht'⟩
    · obtain ⟨s', hs', hrs⟩ := hP.outside offset len hs (Nat.lt_of_not_le hr)
      obtain ⟨t', ht', hrt⟩ := hQ.outside offset len ht (Nat.lt_of_not_le hr)
      rw [hrs, hrt]
      exact .error ⟨hs', ht'⟩

/-- Streams that present the same content cannot be told apart. -/
theorem Presents.transcribe_eq (hP : Presents P content) (hQ : Presents Q content) {s : σ} {t : τ}
    (hs : P s) (ht : Q t) (options : Options) (catalog : Catalog) (calls : List Call) :
    transcribe s options catalog calls = transcribe t options catalog calls := by
  have he := hP.echoes hQ
  unfold transcribe
  rcases ofStream_twin he ⟨hs, ht⟩ options catalog with ⟨fault, hb, hc⟩ | ⟨b, c, hb, hc, hbc⟩
  · rw [hb, hc]
  · obtain ⟨hcalls, -, stream, ⟨hs', ht'⟩, hafter⟩ := hbc.answersAll_eq he calls
    have hclosed : answerOf (b.afterCalls calls).close = .ok () := by
      obtain ⟨_, hclose⟩ := hP.close hs'
      rw [Browser.close, hclose]
      rfl
    have hclosed' : answerOf (c.afterCalls calls).close = .ok () := by
      obtain ⟨_, hclose⟩ := hQ.close ht'
      rw [hafter, Browser.close, withStream, hclose]
      rfl
    obtain ⟨-, opened, -, rfl⟩ := hbc
    rw [hb, hc]
    dsimp only
    rw [hcalls, hclosed, hclosed']
    rfl

/-! ## The streams of this library -/

omit [Stream τ] in
/-- A file is seen the same whether it is in memory, read from a source that holds its bytes and
gives any number of them at a time, or behind a cache of any size in front of either, whatever
bounded map the cache keeps its blocks in. -/
theorem transcribe_eq_ofBytes [Source τ] {μ : Type} [BlockMap μ] [LawfulBlockMap μ]
    (hw : content.size ≤ Word.max) {V : τ → Prop} (hV : Source.Holds V content) {source : τ}
    (hs : V source) (name : String) (options : Options) (catalog : Catalog) (calls : List Call)
    (blockSize capacity : Nat) :
    ∃ r, Reader.ofSource source name = .ok r ∧
      let seen := transcribe (Memory.ofBytes content) options catalog calls
      transcribe r options catalog calls = seen ∧
      transcribe (Cached.ofStream (Memory.ofBytes content) blockSize capacity : Cached Memory μ)
        options catalog calls = seen ∧
      transcribe (Cached.ofStream r blockSize capacity : Cached (Reader τ) μ) options catalog
        calls = seen := by
  obtain ⟨r, hr, hreads⟩ := Reader.ofSource_eq hV hs name
  have hm : (Memory.ofBytes content).Holds content := Memory.holds_ofBytes hw
  have hmemory := Memory.presents content
  have hcached := Memory.contract.presents (μ := μ) (fun _ h => h) (fun _ => ⟨_, rfl⟩) content
  have hcachedReader := (Reader.contract hV hw).presents (μ := μ) (fun _ h => h)
    (fun _ => ⟨_, rfl⟩) content
  refine ⟨r, hr, ?_, ?_, ?_⟩
  · exact (Reader.presents hV hw).transcribe_eq hmemory hreads hm options catalog calls
  · have hvalid : (Memory.ofBytes content).Holds (Memory.ofBytes content).contents :=
      hm.contents.symm ▸ hm
    exact hcached.transcribe_eq hmemory ⟨Contract.fresh_ofStream hvalid _ _, hm.contents⟩ hm options
      catalog calls
  · exact hcachedReader.transcribe_eq hmemory ⟨Contract.fresh_ofStream hreads _ _, rfl⟩ hm options
      catalog calls

/-- A source that gives one, two or three bytes at a time, in turns. -/
structure Trickle where
  /-- All the bytes. -/
  bytes : ByteArray
  /-- How often some were asked for. -/
  turn : Nat := 0

instance : Source Trickle where
  length := fun t => .ok t.bytes.size t
  readAt := fun offset want t =>
    .ok (t.bytes.extract offset (offset + min want (t.turn % 3 + 1))) { t with turn := t.turn + 1 }

/-- A source that trickles gives what it holds. -/
theorem Trickle.holds (content : ByteArray) :
    Source.Holds (fun t : Trickle => t.bytes = content) content where
  length := by
    rintro t rfl
    exact ⟨t, rfl, rfl⟩
  read := by
    rintro t offset want rfl h0 -
    exact ⟨min want (t.turn % 3 + 1), { t with turn := t.turn + 1 }, by omega, Nat.min_le_left _ _,
      rfl, rfl⟩

/-- A classic file with a directory of one field at 8, whose next one at 26 is cut off. -/
def cutShort : ByteArray := ⟨#[
  0x49, 0x49, 42, 0, 8, 0, 0, 0,
  1, 0, 0, 1, 3, 0, 1, 0, 0, 0, 100, 0, 0, 0, 26, 0, 0, 0,
  1, 0, 0]⟩

/-- A directory, a value, a count and a fault are seen the same in memory, from a source that
trickles and through a cache of two blocks of five bytes in front of either. -/
theorem transcribe_eq_ofBytes_cutShort :
    ∃ r, Reader.ofSource (Trickle.mk cutShort 0) "trickle" = .ok r ∧
      let calls : List Call := [.next, .unsigned 256, .count, .next]
      let seen := transcribe (Memory.ofBytes cutShort) {} .standard calls
      (∃ t, seen = .ok t ∧ t.calls.map (·.2.stop) = [none, none, none, some .malformed]) ∧
      transcribe r {} .standard calls = seen ∧
      transcribe (Cached.ofStream (Memory.ofBytes cutShort) 5 2 : Cached Memory) {} .standard
        calls = seen ∧
      transcribe (Cached.ofStream r 5 2 : Cached (Reader Trickle)) {} .standard calls = seen := by
  have hs : (Trickle.mk cutShort 0).bytes = cutShort := rfl
  obtain ⟨r, hr, h⟩ := transcribe_eq_ofBytes (μ := Recency ByteArray) (by decide)
    (Trickle.holds cutShort) hs "trickle" {} .standard [.next, .unsigned 256, .count, .next] 5 2
  exact ⟨r, hr, by decide +kernel, h⟩

end TaggedImage
