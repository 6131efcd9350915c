import TaggedImage.Proofs.MemoryContent
import TaggedImage.Proofs.Walk

/-!
# Going on along the chain after a jump

A jump to a directory of the chain does not touch the list of visited offsets, and `Browser.next`
goes on from there. `Browser.walks_after_jump` says how far it comes, after any run of walks, jumps
and rewinds before: to the end of the chain exactly if the offsets that follow are first those that
stand after the jump's place in the list, and then only offsets that were never visited.
`Browser.revisited_stops_as_cycle` is a chain without a cycle on which the walk stops for one.
-/

namespace TaggedImage

open FileM

namespace Browser

variable {σ : Type} [Stream σ]

/-- A call that moves through the file. -/
inductive Move where
  | next
  | jump (offset : Nat)
  | rewind
  deriving DecidableEq

/-- Makes a move, whose answer is not looked at. -/
def Move.run : Move → FileM (Browser σ) PUnit
  | .next => do let _ ← Browser.next
  | .jump offset => do let _ ← jumpTo offset
  | .rewind => modify rewound

/-- The browser after some moves, of which any may fail. -/
def afterMoves (b : Browser σ) (moves : List Move) : Browser σ :=
  moves.foldl (fun b move => leaves move.run b) b

variable {P : σ → Prop} {content : ByteArray} {b : Browser σ}

/-- A step along the chain leaves a stream that serves the content, a browser that keeps track of
what it visited, and the same file. -/
theorem next_keeps (hP : Serves P content) (hb : P b.stream) (ht : b.Tracks) :
    P (leaves next b).stream ∧ (leaves next b).Tracks ∧ SameFile b (leaves next b) := by
  cases hst : b.stop with
  | some reason =>
    have hn : next b = .ok none b := by
      simp only [next, hst, Option.isSome_some, if_true]
    rw [leaves_of_ok hn]
    exact ⟨hb, ht, rfl, rfl, rfl⟩
  | none =>
    obtain ⟨⟨offset, place⟩, hsu⟩ : ∃ successor, b.successor = successor := ⟨_, rfl⟩
    cases ho : b.obstacle? offset place with
    | some reason =>
      rw [leaves_of_ok (next_stop hst hsu ho)]
      exact ⟨hb, ht.of_eq rfl rfl, rfl, rfl, rfl⟩
    | none =>
      cases hd : b.parseAt content offset with
      | error fault =>
        obtain ⟨s, hs, hr⟩ := directoryAt_eq hP hb offset
        have hn : next b = .error fault
            { b with stream := s, started := true, stop := some .malformed } := by
          rw [next_reads hst hsu ho, hr, hd, answer_error]
        rw [leaves_of_error hn]
        exact ⟨hs, ht.of_eq rfl rfl, rfl, rfl, rfl⟩
      | ok d =>
        obtain ⟨b', hn, hb', hf, -, ht', -⟩ := next_eq hP hb hst hsu ho hd
        rw [leaves_of_ok hn]
        exact ⟨hb', ht' ht, hf⟩

/-- What a jump does: without a jump left it does nothing, and otherwise it parses the directory. -/
theorem jumpTo_cases (hP : Serves P content) (hb : P b.stream) (offset : Nat) :
    (∃ fault, jumpTo offset b = .error fault b) ∨
    ∃ s, P s ∧ jumpTo offset b =
      match b.parseAt content offset with
      | .error fault => .error fault { b with stream := s, jumps := b.jumps + 1 }
      | .ok d => .ok d { b with
          stream := s, jumps := b.jumps + 1
          current := some d, index := b.chain.idxOf? offset, started := true, stop := none } := by
  by_cases hj : b.options.maxJumps ≤ b.jumps
  · exact .inl ⟨_, bind_of_error (if_pos hj)⟩
  · have ht : takeJump b = .ok ⟨⟩ { b with jumps := b.jumps + 1 } := if_neg hj
    obtain ⟨s, hs, hr⟩ := directoryAt_eq hP (b := { b with jumps := b.jumps + 1 }) hb offset
    refine .inr ⟨s, hs, ?_⟩
    rw [jumpTo, bind_of_ok ht]
    change _ = answer _ (b.parseAt content offset) at hr
    cases hd : b.parseAt content offset with
    | error fault =>
      rw [hd] at hr
      exact bind_of_error hr
    | ok d =>
      rw [hd] at hr
      exact bind_of_ok hr

/-- A move keeps the file and how it is read, and the track of what was visited. -/
theorem Move.keeps (hP : Serves P content) (hb : P b.stream) (ht : b.Tracks) (move : Move) :
    P (leaves move.run b).stream ∧ (leaves move.run b).Tracks ∧
      SameFile b (leaves move.run b) := by
  cases move with
  | next =>
    rw [Move.run, leaves_discard]
    exact next_keeps hP hb ht
  | jump offset =>
    rw [Move.run, leaves_discard]
    rcases jumpTo_cases hP hb offset with ⟨fault, hj⟩ | ⟨s, hs, hj⟩
    · rw [leaves_of_error hj]
      exact ⟨hb, ht, rfl, rfl, rfl⟩
    · cases hd : b.parseAt content offset <;> rw [hd] at hj
      · rw [leaves_of_error hj]
        exact ⟨hs, ht.of_eq rfl rfl, rfl, rfl, rfl⟩
      · rw [leaves_of_ok hj]
        exact ⟨hs, ht.of_eq rfl rfl, rfl, rfl, rfl⟩
  | rewind => exact ⟨hb, tracks_new rfl rfl, rfl, rfl, rfl⟩

/-- What one move keeps, a run of moves keeps. -/
theorem afterMoves_keeps (hP : Serves P content) (hb : P b.stream) (ht : b.Tracks)
    (moves : List Move) : P (b.afterMoves moves).stream ∧ (b.afterMoves moves).Tracks ∧
      SameFile b (b.afterMoves moves) := by
  induction moves generalizing b with
  | nil => exact ⟨hb, ht, rfl, rfl, rfl⟩
  | cons move moves ih =>
    obtain ⟨hm, htm, hf⟩ := move.keeps hP hb ht
    obtain ⟨hs, hts, hf'⟩ := ih hm htm
    exact ⟨hs, hts, hf'.header.trans hf.header, hf'.options.trans hf.options,
      hf'.catalog.trans hf.catalog⟩

/-- A jump that succeeds makes the directory the current one, at its first place in the list. -/
theorem jumpTo_ok (hP : Serves P content) (hb : P b.stream) {offset : Nat} {d : Directory}
    {b' : Browser σ} (h : jumpTo offset b = .ok d b') :
    b.parseAt content offset = .ok d ∧ P b'.stream ∧ SameFile b b' ∧ b'.stop = none ∧
      b'.chain = b.chain ∧ b'.visited = b.visited ∧
      b'.successor = (d.next, (b.chain.idxOf? offset).map (· + 1)) := by
  rcases jumpTo_cases hP hb offset with ⟨fault, hf⟩ | ⟨s, hs, hj⟩
  · rw [hf] at h
    cases h
  · rw [hj] at h
    cases hd : b.parseAt content offset with
    | error fault =>
      rw [hd] at h
      cases h
    | ok d' =>
      rw [hd] at h
      cases h
      exact ⟨rfl, hs, ⟨rfl, rfl, rfl⟩, rfl, rfl, rfl, rfl⟩

/-- The walk after a jump to a directory of a chain that ends. `before` and `after` are the
directories of the chain around it, and `b'` is the browser after any moves from a state that keeps
track of what it visited, with room for the offsets that were not visited yet. The walk answers the
directories that follow, all of them exactly if their offsets are walkable; otherwise it takes one
of them for the beginning of a cycle. -/
theorem walks_after_jump (hP : Serves P content) (hb : P b.stream) (ht : b.Tracks)
    (moves : List Move)
    {before after : List Directory} {d d' : Directory}
    (hc : Directory.Chain (b.parseAt content) b.header.first (before ++ d :: after))
    {b' b'' : Browser σ} (hm : b.afterMoves moves = b') (hj : jumpTo d.offset b' = .ok d' b'')
    (hroom : b'.chain.length + ((after.map (·.offset)).filter (· ∉ b'.chain)).length
      ≤ b.options.limits.directories) :
    ∃ k ≤ after.length,
      (k = after.length ↔
        Walkable b'.chain ((b'.chain.idxOf? d.offset).map (· + 1)) (after.map (·.offset))) ∧
      b''.Walks (after.take k)
        (match after[k]? with | none => .endOfChain | some e => .cycle e.offset) := by
  subst hm
  obtain ⟨hb', ht', hf⟩ := afterMoves_keeps hP hb ht moves
  obtain ⟨hd', hb'', hf', hstop, hchain, hvisited, hs⟩ := jumpTo_ok hP hb' hj
  obtain ⟨o, -, hd, hn⟩ := hc.of_append
  have ho : d.offset = o := Directory.offset_of_parse hd
  rw [hf.parseAt, ho, hd] at hd'
  cases hd'
  rw [← hf.parseAt, ← hf'.parseAt] at hn
  rw [← hf.options, ← hf'.options, ← hchain] at hroom
  have hw := walk_chain hP hb'' (ht'.of_eq hchain hvisited) hstop hs hn hroom
  rwa [hchain] at hw

/-! ## A file with three directories -/

/-- A classic file whose chain has the offsets 8, 26 and 44. -/
def threeDirectories : ByteArray := ⟨#[
  0x49, 0x49, 42, 0, 8, 0, 0, 0,
  1, 0, 0, 1, 3, 0, 1, 0, 0, 0, 100, 0, 0, 0, 26, 0, 0, 0,
  1, 0, 0, 1, 3, 0, 1, 0, 0, 0, 200, 0, 0, 0, 44, 0, 0, 0,
  1, 0, 0, 1, 3, 0, 1, 0, 0, 0, 44, 1, 0, 0, 0, 0, 0, 0]⟩

/-- The directory at an offset of that file, whose only field has this value. -/
def directoryOfThree (offset next : Nat) (low high : UInt8) : Directory where
  offset := offset
  entries := [⟨256, .short, 1, ⟨#[low, high, 0, 0]⟩, true⟩]
  next := next
  nextCut := false

/-- The file, opened. -/
def openedThree : Browser Memory where
  stream := Memory.ofBytes threeDirectories
  header := ⟨.little, .narrow, 8⟩
  options := {}
  catalog := .standard

/-- The three directories of the file are a chain, from the first on. -/
theorem chain_three : Directory.Chain (openedThree.parseAt threeDirectories) 8
    [directoryOfThree 8 26 100 0, directoryOfThree 26 44 200 0, directoryOfThree 44 0 44 1] := by
  refine ⟨by decide, ?_, by decide, ?_, by decide, ?_, rfl⟩ <;> decide +kernel

/-- After a walk over the first two of them and a jump back to the first, the walk comes to the end:
it passes over 26 again and then meets 44 for the first time. -/
theorem walks_after_jump_back :
    Yields (jumpTo 8) (openedThree.afterMoves [.next, .next]) fun _ b =>
      b.Walks [directoryOfThree 26 44 200 0, directoryOfThree 44 0 44 1] .endOfChain := by
  have hs : Memory.Holds threeDirectories openedThree.stream := Memory.holds_ofBytes (by decide)
  have hv : (openedThree.afterMoves [.next, .next]).chain = [8, 26] := by decide +kernel
  have hj : Yields (jumpTo 8) (openedThree.afterMoves [.next, .next]) fun d _ =>
      d = directoryOfThree 8 26 100 0 := by decide +kernel
  obtain ⟨_, b, hj, rfl⟩ := hj
  have hc : Directory.Chain (openedThree.parseAt threeDirectories) openedThree.header.first
      ([] ++ directoryOfThree 8 26 100 0 ::
        [directoryOfThree 26 44 200 0, directoryOfThree 44 0 44 1]) := chain_three
  obtain ⟨k, -, hk, hw⟩ := walks_after_jump (Memory.serves _) hs (tracks_new rfl rfl)
    [.next, .next] hc rfl hj (by rw [hv]; decide)
  rw [hv] at hk
  cases hk.2 ⟨[26], [44], rfl, by decide, .inr ⟨1, rfl, by decide⟩⟩
  exact ⟨_, b, hj, hw⟩

/-- Jumps to 8, along the chain to 26 and to 8 again. The list of visited offsets holds 26 alone, so
8 has no place in it, and the walk takes 26 for the beginning of a cycle. -/
theorem revisited_stops_as_cycle :
    Yields (jumpTo 8) (openedThree.afterMoves [.jump 8, .next]) fun _ b =>
      b.Walks [] (.cycle 26) := by
  decide +kernel

end Browser

end TaggedImage
