import TaggedImage.Proofs.Calls
import TaggedImage.Proofs.MemoryContent

/-!
# The place of the current directory

The place that a browser gives for its current directory is the place of its offset in the list of
visited offsets. That list also records the offsets met by a walk that goes on from a jump, so that
it need not be the chain that begins at the header: `Browser.offChain_has_index` is a directory with
a place that does not lie on the chain. `Browser.anchored` keeps how much of the beginning of the
list was recorded from known places, and there the place is the one in the chain, after any run of
calls (`Browser.chainAt?_of_index`). A run that never goes on from a directory without a place has
every place right.
-/

namespace TaggedImage

open FileM

namespace Directory

/-- Where a directory lies that is named as the next one. -/
def link? (offset : Nat) : Option Nat := if offset = 0 then none else some offset

/-- An offset other than zero leads on. -/
theorem link?_of_ne_zero {offset : Nat} (h : offset ≠ 0) : link? offset = some offset := if_neg h

variable {header : Header} {content : ByteArray}

/-- The offset at a place of the chain that begins at the header. -/
def chainAt? (header : Header) (content : ByteArray) : Nat → Option Nat
  | 0 => link? header.first
  | i + 1 => (chainAt? header content i).bind fun offset => link? (nextAt header content offset)

end Directory

open Directory

namespace Browser

variable {σ : Type}

/-- How many offsets at the beginning of the list were recorded one after the other from known
places. -/
def anchored [Stream σ] : Log σ Nat where
  new := 0
  step b n := if n = b.chain.length ∧ b.successor.2.isSome then (leaves next b).chain.length else n

/-- The current directory is one of the content and has the offset that stands at its place in the
list. The first `n` offsets of the list are those of the chain. -/
structure Anchored (P : σ → Prop) (content : ByteArray) (b : Browser σ) (n : Nat) : Prop where
  stream : P b.stream
  linked : ∀ d, b.current = some d → d.next = nextAt b.header content d.offset
  placed : ∀ i, b.index = some i → ∃ d, b.current = some d ∧ b.chain[i]? = some d.offset
  fresh : b.started = false → b.chain = []
  bound : n ≤ b.chain.length
  offsets : ∀ i < n, b.chain[i]? = chainAt? b.header content i

variable {P : σ → Prop} {content : ByteArray} {b : Browser σ} {n : Nat}

/-- A walk that has recorded nothing is anchored. -/
theorem anchored_new (hb : P b.stream) (hcurrent : b.current = none) (hindex : b.index = none)
    (hchain : b.chain = []) : b.Anchored P content 0 where
  stream := hb
  linked d hd := by rw [hcurrent] at hd; cases hd
  placed i hi := by rw [hindex] at hi; cases hi
  fresh _ := hchain
  bound := Nat.zero_le _
  offsets _ hi := absurd hi (Nat.not_lt_zero _)

/-- What comes after a place of the chain comes next in the chain. -/
theorem Anchored.chainAt?_successor (h : b.Anchored P content n) {offset p : Nat}
    (hs : b.successor = (offset, some p)) (h0 : offset ≠ 0) (hp : p ≤ n) :
    chainAt? b.header content p = some offset := by
  unfold successor at hs
  split at hs
  · split at hs
    · next d hd =>
      obtain ⟨hnext, hplace⟩ := Prod.mk.inj hs
      obtain ⟨i, hi, rfl⟩ := Option.map_eq_some_iff.1 hplace
      obtain ⟨d', hd', hoff⟩ := h.placed i hi
      rw [hd] at hd'
      cases hd'
      rw [chainAt?, ← h.offsets i (by omega), hoff, Option.bind_some, ← h.linked d hd, hnext,
        link?_of_ne_zero h0]
    · cases hs
  · cases hs
    exact link?_of_ne_zero h0

variable [Stream σ]

/-- A directory that is read is one of the content. -/
theorem directoryAt_ok (hP : Serves P content) (hb : P b.stream) {offset : Nat} {d : Directory}
    {b' : Browser σ} (h : directoryAt offset b = .ok d b') :
    d.offset = offset ∧ d.next = nextAt b.header content d.offset ∧ P b'.stream := by
  obtain ⟨s, hs, hr⟩ := directoryAt_eq hP hb offset
  obtain ⟨hparse, rfl⟩ := answer_eq_ok.1 (hr.symm.trans h)
  have hoff := offset_of_parse hparse
  exact ⟨hoff, hoff.symm ▸ next_of_parse hparse, hs⟩

/-- A step keeps what the list says of the chain: what it records behind a list that is the chain so
far, coming from a known place, is what comes next in the chain. -/
theorem Anchored.step (hP : Serves P content) (hR : Refuses P content)
    (h : b.Anchored P content n) : (leaves next b).Anchored P content (anchored.step b n) := by
  have hkeeps := Call.run_keeps hP hR h.stream .next
  rw [Call.leaves_next] at hkeeps
  have hn := b.next_steps
  unfold anchored
  dsimp only
  unfold leaves at hkeeps ⊢
  generalize next b = r at hn hkeeps
  -- where nothing is recorded, the number stays as it is
  have hsame : (if n = b.chain.length ∧ b.successor.2.isSome then b.chain.length else n) = n := by
    split
    · next hc => exact hc.1.symm
    · rfl
  cases hn with
  | stopped => exact hsame.symm ▸ h
  | held => exact hsame.symm ▸ ⟨hkeeps, h.linked, h.placed, nofun, h.bound, h.offsets⟩
  | failed => exact hsame.symm ▸ ⟨hkeeps, h.linked, h.placed, nofun, h.bound, h.offsets⟩
  | @arrived offset place d stream hstop hs ho hd =>
    obtain ⟨h0, ho⟩ := obstacle?_eq_none.1 ho
    obtain ⟨hoff, hnext, -⟩ := directoryAt_ok hP h.stream hd
    have hlinked : ∀ d', some d = some d' → d'.next = nextAt b.header content d'.offset := by
      intro _ he
      cases he
      exact hnext
    rcases ho with hk | ⟨hk, -, -⟩
    · obtain ⟨i, rfl, hi⟩ := isKnown_iff.1 hk
      dsimp only at hkeeps ⊢
      rw [arrive_known (b := { b with stream := stream }) hk] at hkeeps ⊢
      rw [hsame]
      refine ⟨hkeeps, hlinked, fun j hj => ?_, nofun, h.bound, h.offsets⟩
      cases hj
      exact ⟨d, rfl, hoff ▸ hi⟩
    · dsimp only at hkeeps ⊢
      rw [arrive_new (b := { b with stream := stream }) hk] at hkeeps ⊢
      have hlast : (b.chain ++ [offset])[b.chain.length]? = some offset :=
        List.getElem?_concat_length
      refine ⟨hkeeps, hlinked, fun j hj => ?_, nofun, ?_, fun i hi => ?_⟩
      · obtain ⟨_, -, rfl⟩ := Option.map_eq_some_iff.1 hj
        exact ⟨d, rfl, hoff ▸ hlast⟩
      · have := h.bound
        split <;> grind
      · dsimp only at hi ⊢
        have hbound := h.bound
        by_cases hin : i < n
        · rw [List.getElem?_append_left (by omega)]
          exact h.offsets i hin
        · -- the one place more is the end of the list, and it comes after a known place
          split at hi
          · next hc =>
            obtain ⟨hend, p, hp⟩ := hc.imp_right Option.isSome_iff_exists.1
            rw [hs] at hp
            cases hp
            have hple := place_le (fun j hj => (List.getElem?_eq_some_iff.1
              (h.placed j hj).choose_spec.2).1) hs
            have hchain := h.chainAt?_successor hs h0 (by omega)
            have hpn : p = n := by
              refine Nat.le_antisymm (by omega) (Nat.le_of_not_lt fun hlt => ?_)
              -- otherwise the place would have been known
              rw [← h.offsets p hlt] at hchain
              rw [isKnown_iff.2 ⟨p, rfl, hchain⟩] at hk
              cases hk
            obtain rfl : i = b.chain.length := by
              rw [List.length_append, List.length_singleton] at hi
              omega
            rw [hlast, ← hend, ← hpn, hchain]
          · exact absurd hi hin

/-- A jump records nothing, so that a walk that is anchored stays so. -/
theorem Anchored.jump (hP : Serves P content) (hR : Refuses P content)
    (h : b.Anchored P content n) (offset : Nat) :
    (leaves (jumpTo offset) b).Anchored P content n := by
  have hkeeps := Call.run_keeps hP hR h.stream (.jump offset)
  rw [Call.leaves_jump] at hkeeps
  have hj := b.jumpTo_jumps offset
  unfold leaves at hkeeps ⊢
  generalize jumpTo offset b = r at hj hkeeps
  cases hj with
  | refused => exact h
  | failed => exact ⟨hkeeps, h.linked, h.placed, h.fresh, h.bound, h.offsets⟩
  | landed hd =>
    obtain ⟨hoff, hnext, -⟩ := directoryAt_ok hP (b := { b with jumps := b.jumps + 1 }) h.stream hd
    refine ⟨hkeeps, fun d' he => ?_, fun i hi => ?_, nofun, h.bound, h.offsets⟩
    · cases he
      exact hnext
    · obtain ⟨hlt, hget, -⟩ := List.idxOf?_eq_some_iff.1 hi
      exact ⟨_, rfl, by rw [List.getElem?_eq_getElem hlt, hget, hoff]⟩

/-- A walk that is anchored stays so over any run of calls. -/
theorem Anchored.afterCalls (hP : Serves P content) (hR : Refuses P content)
    (h : b.Anchored P content n) (calls : List Call) :
    (b.afterCalls calls).Anchored P content (anchored.afterCalls calls b n) :=
  Log.afterCalls_keeps (I := fun b n => b.Anchored P content n) (fun _ _ h => h.step hP hR)
    (fun _ _ h => anchored_new h.stream rfl rfl rfl) (fun _ _ offset h => h.jump hP hR offset)
    (fun b n call hc h => by
      have hkeeps := Call.run_keeps hP hR h.stream call
      obtain ⟨stream, catalog, jumps, hq⟩ := call.run_quiet (b := b) hc
      rw [hq] at hkeeps ⊢
      exact ⟨hkeeps, h.linked, h.placed, h.fresh, h.bound, h.offsets⟩) h calls

/-! ## Runs that keep their place -/

/-- The walk, if it goes on, comes to a known place. -/
def PlaceKnown (b : Browser σ) : Prop := b.stop = none → b.successor.2.isSome

/-- A step from a place that is known comes to one that is known. -/
theorem PlaceKnown.step (h : b.PlaceKnown) : (leaves next b).PlaceKnown := by
  have hn := b.next_steps
  unfold leaves
  generalize next b = r at hn
  cases hn with
  | stopped => exact h
  | held => exact nofun
  | failed => exact nofun
  | arrived hstop hs =>
    intro _
    have hplace := h hstop
    rw [hs] at hplace
    rw [arrive_successor, Option.isSome_map]
    exact hplace

/-- A step from a known place keeps the whole list anchored. -/
theorem anchored_step (hn : n = b.chain.length) (h : b.PlaceKnown) :
    anchored.step b n = (leaves next b).chain.length := by
  cases hstop : b.stop with
  | none => exact if_pos ⟨hn, h hstop⟩
  | some reason =>
    have hnext : leaves next b = b := leaves_of_ok (next_stopped (hstop ▸ rfl))
    unfold anchored
    dsimp only
    rw [hnext, hn, ite_self]

/-- Several steps from a known place record offsets without a gap. -/
theorem anchored_afterSteps (hn : n = b.chain.length) (h : b.PlaceKnown) (k : Nat) :
    anchored.afterSteps k b n = (b.afterSteps k).chain.length := by
  induction k generalizing b n with
  | zero => exact hn
  | succ k ih => exact ih (anchored_step hn h) h.step

/-- No step along the chain is made from a directory whose place is not known. -/
def KeepsPlace : Browser σ → List Call → Prop
  | _, [] => True
  | b, call :: calls => (call = .next → b.PlaceKnown) ∧ KeepsPlace (leaves call.run b) calls

/-- In a run that keeps its place the whole list is anchored. -/
theorem anchored_afterCalls (hn : n = b.chain.length) {calls : List Call} (h : b.KeepsPlace calls) :
    anchored.afterCalls calls b n = (b.afterCalls calls).chain.length := by
  induction calls generalizing b n with
  | nil => exact hn
  | cons call calls ih =>
    refine ih ?_ h.2
    cases hm : call.isMove with
    | false =>
      obtain ⟨stream, catalog, jumps, hq⟩ := call.run_quiet (b := b) hm
      rw [Log.afterCall_of_not_isMove hm, hq]
      exact hn
    | true =>
      cases call with
      | next =>
        rw [Call.leaves_next]
        exact anchored_step hn (h.1 rfl)
      | rewind => rfl
      | jump offset =>
        rw [Call.leaves_jump, leaves]
        have hj := b.jumpTo_jumps offset
        cases hr : jumpTo offset b <;> rw [hr] at hj <;> cases hj <;> exact hn
      | goTo index =>
        rw [Call.leaves_goTo]
        exact anchored_afterSteps rfl (fun _ => rfl) (index + 1)
      | _ => cases hm

/-- After any run of calls a place that is given is the one of the current directory in the list,
and within the first `anchored` offsets of the list it is the place in the chain. That is the whole
list if the run keeps its place. -/
theorem chainAt?_of_index (hP : Serves P content) (hR : Refuses P content) {stream : σ}
    (hs : P stream) {options : Options} {catalog : Catalog}
    (ho : Browser.ofStream stream options catalog = .ok b) (calls : List Call) {i : Nat}
    (hi : (b.afterCalls calls).index = some i) :
    ∃ d, (b.afterCalls calls).current = some d ∧
      (b.afterCalls calls).chain[i]? = some d.offset ∧
      (i < anchored.afterCalls calls b 0 → chainAt? b.header content i = some d.offset) ∧
      (b.KeepsPlace calls → chainAt? b.header content i = some d.offset) := by
  obtain ⟨hnew, hlen⟩ : b.Anchored P content 0 ∧ 0 = b.chain.length := by
    have hb := ofStream_keeps hP hs ho
    obtain ⟨header, s, -, rfl⟩ := ofStream_eq_ok ho
    exact ⟨anchored_new hb rfl rfl rfl, rfl⟩
  have h := hnew.afterCalls hP hR calls
  obtain ⟨d, hd, hoff⟩ := h.placed i hi
  have hchain (hlt : i < anchored.afterCalls calls b 0) :
      chainAt? b.header content i = some d.offset := by
    rw [← hoff, h.offsets i hlt, (afterCalls_file calls).1]
  refine ⟨d, hd, hoff, hchain, fun hkeeps => hchain ?_⟩
  rw [anchored_afterCalls hlen hkeeps]
  exact (List.getElem?_eq_some_iff.1 hoff).1

/-- A classic file with a chain of one directory, at 8, beside which there are a directory at 26 and
its next one at 44. -/
def sideBranch : ByteArray := ⟨#[
  0x49, 0x49, 42, 0, 8, 0, 0, 0,
  1, 0, 0, 1, 3, 0, 1, 0, 0, 0, 100, 0, 0, 0, 0, 0, 0, 0,
  1, 0, 0, 1, 3, 0, 1, 0, 0, 0, 200, 0, 0, 0, 44, 0, 0, 0,
  1, 0, 0, 1, 3, 0, 1, 0, 0, 0, 44, 1, 0, 0, 0, 0, 0, 0]⟩

/-- After a jump back to 8 its place there is the one in the chain, though 44 was recorded after it
in one of the runs; the other run keeps its place. -/
theorem chainAt?_of_index_sideBranch :
    ∃ b, Browser.ofStream (Memory.ofBytes sideBranch) {} .standard = .ok b ∧
      (b.afterCalls [.next, .jump 26, .next, .jump 8]).chain = [8, 44] ∧
      (∃ d, (b.afterCalls [.next, .jump 26, .next, .jump 8]).current = some d ∧
        chainAt? b.header sideBranch 0 = some d.offset) ∧
      b.KeepsPlace [.next, .jump 26, .jump 8] ∧
      ∃ d, (b.afterCalls [.next, .jump 26, .jump 8]).current = some d ∧
        chainAt? b.header sideBranch 0 = some d.offset := by
  obtain ⟨b, ho, hchain, hi, hn, hi'⟩ :
      ∃ b, Browser.ofStream (Memory.ofBytes sideBranch) {} .standard = .ok b ∧
        (b.afterCalls [.next, .jump 26, .next, .jump 8]).chain = [8, 44] ∧
        (b.afterCalls [.next, .jump 26, .next, .jump 8]).index = some 0 ∧
        anchored.afterCalls [.next, .jump 26, .next, .jump 8] b 0 = 1 ∧
        (b.afterCalls [.next, .jump 26, .jump 8]).index = some 0 := by
    decide +kernel
  have hm : (Memory.ofBytes sideBranch).Holds sideBranch := Memory.holds_ofBytes (by decide)
  have hkeeps : b.KeepsPlace [.next, .jump 26, .jump 8] := by
    obtain ⟨header, s, -, rfl⟩ := ofStream_eq_ok ho
    exact ⟨fun _ _ => rfl, nofun, nofun, trivial⟩
  obtain ⟨d, hd, -, hc, -⟩ := chainAt?_of_index (Memory.serves _) (Memory.refuses _) hm ho _ hi
  obtain ⟨d', hd', -, -, hc'⟩ := chainAt?_of_index (Memory.serves _) (Memory.refuses _) hm ho _ hi'
  exact ⟨b, ho, hchain, ⟨d, hd, hc (by rw [hn]; decide)⟩, hkeeps, d', hd', hc' hkeeps⟩

/-- Jumps to 26, goes on to 44 and jumps back to 44. The list of visited offsets holds 44 alone, so
that 44 has the place of the first directory of the chain, which lies at 8. -/
theorem offChain_has_index :
    ∃ b, Browser.ofStream (Memory.ofBytes sideBranch) {} .standard = .ok b ∧
      (b.afterCalls [.jump 26, .next, .jump 44]).index = some 0 ∧
      (b.afterCalls [.jump 26, .next, .jump 44]).current.map (·.offset) = some 44 ∧
      chainAt? b.header sideBranch 0 = some 8 := by
  decide +kernel

end Browser

end TaggedImage
