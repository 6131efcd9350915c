import TaggedImage.Proofs.Calls

/-!
# Every walk stops

From any state that calls can lead to, the walk along the chain arrives at a bounded number of
directories and then stops, whatever the bytes of the file and however often its directories refer
back to each other (`Browser.stops_afterCalls`). The offsets visited stand in a list and in a set;
the two hold the same, since every step and every rewind changes both and nothing else changes
either (`Browser.Tidy`). An offset at a known place is walked over without being recorded, so that
what was visited alone is no measure; `Browser.room`, the places that are left behind the one the
walk is at, is smaller after every arrival.
-/

namespace TaggedImage

open FileM

namespace Browser

variable {σ : Type}

/-! ## The offsets visited -/

/-- The list and the set of the visited offsets hold the same, no more than are allowed, and the
place of the current directory, if it is known, is one in the list. -/
structure Tidy (b : Browser σ) : Prop extends b.Tracks where
  bound : b.chain.length ≤ b.options.limits.directories
  index : ∀ i, b.index = some i → i < b.chain.length

variable {b : Browser σ}

/-- A browser with the same list, set, limit and place stays tidy, whatever else is changed. -/
theorem Tidy.of_eq {b' : Browser σ} (h : b.Tidy) (hchain : b'.chain = b.chain)
    (hvisited : b'.visited = b.visited) (hoptions : b'.options = b.options)
    (hindex : b'.index = b.index) : b'.Tidy where
  toTracks := h.toTracks.of_eq hchain hvisited
  bound := by rw [hchain, hoptions]; exact h.bound
  index i hi := by rw [hchain]; exact h.index i (hindex ▸ hi)

/-- A browser that has visited nothing is tidy. -/
theorem tidy_new (hchain : b.chain = []) (hvisited : b.visited = {}) (hindex : b.index = none) :
    b.Tidy where
  toTracks := tracks_new hchain hvisited
  bound := by rw [hchain]; exact Nat.zero_le _
  index i hi := by rw [hindex] at hi; cases hi

/-- An arrival at an offset that does not hold the walk up keeps the list and the set tidy: what is
recorded was in neither, and both had room for it. -/
theorem Tidy.arrive (h : b.Tidy) {offset : Nat} {place : Option Nat}
    (ho : b.obstacle? offset place = none) (d : Directory) : (b.arrive d offset place).Tidy where
  toTracks := h.toTracks.arrive d offset place (not_visited_of_obstacle ho)
  bound := by
    rcases (obstacle?_eq_none.1 ho).2 with hk | ⟨hk, -, hroom⟩
    · rw [arrive_known hk]
      exact h.bound
    · rw [arrive_new hk]
      simp only [List.length_append, List.length_singleton]
      rwa [h.size] at hroom
  index i hi := by
    cases hk : b.isKnown offset place with
    | true =>
      -- nothing is recorded, and the known place lies in the list
      obtain ⟨j, rfl, hj⟩ := isKnown_iff.1 hk
      rw [arrive_known hk] at hi ⊢
      cases hi
      exact (List.getElem?_eq_some_iff.1 hj).1
    | false =>
      rw [arrive_new hk] at hi ⊢
      obtain ⟨_, -, rfl⟩ := Option.map_eq_some_iff.1 hi
      simp

variable [Stream σ]

/-- A step along the chain keeps the list and the set tidy. -/
theorem Tidy.step (h : b.Tidy) : (leaves next b).Tidy := by
  have hn := b.next_steps
  unfold leaves
  generalize next b = r at hn
  cases hn with
  | stopped => exact h
  | held => exact h.of_eq rfl rfl rfl rfl
  | failed => exact h.of_eq rfl rfl rfl rfl
  | @arrived offset place d stream hstop hs ho hd =>
    exact Tidy.arrive (b := { b with stream := stream }) (h.of_eq rfl rfl rfl rfl) ho d

/-- A jump records nothing, and finds its place in the list. -/
theorem Tidy.jump (h : b.Tidy) (offset : Nat) : (leaves (jumpTo offset) b).Tidy := by
  have hj := b.jumpTo_jumps offset
  unfold leaves
  generalize jumpTo offset b = r at hj
  cases hj with
  | refused => exact h
  | failed => exact h.of_eq rfl rfl rfl rfl
  | landed =>
    refine ⟨h.toTracks.of_eq rfl rfl, h.bound, fun i hi => ?_⟩
    obtain ⟨hlt, -⟩ := List.idxOf?_eq_some_iff.1 hi
    exact hlt

/-- After any run of calls the list and the set are tidy. -/
theorem Tidy.afterCalls (h : b.Tidy) (calls : List Call) : (b.afterCalls calls).Tidy :=
  afterCalls_of_moves (fun _ h => h.step) (fun _ _ => tidy_new rfl rfl rfl)
    (fun _ offset h => h.jump offset)
    (fun b _ hc h => by
      obtain ⟨stream, catalog, jumps, hq⟩ := Call.run_quiet (b := b) hc
      rw [hq]
      exact h.of_eq rfl rfl rfl rfl) h calls

/-! ## The bound -/

omit [Stream σ] in
/-- How many more directories the walk can arrive at: as many as there are places left behind the
next one, or behind the list if the next place is not known. -/
def room (b : Browser σ) : Nat :=
  b.options.limits.directories - b.successor.2.getD b.chain.length

/-- After every arrival there is less room. -/
theorem Tidy.room_lt (h : b.Tidy) {d : Directory} {b' : Browser σ}
    (hnext : next b = .ok (some d) b') : b'.room < b.room := by
  have hn := b.next_steps
  rw [hnext] at hn
  cases hn with
  | @arrived offset place d stream hstop hs ho hd =>
    have hroom : b.room = b.options.limits.directories - place.getD b.chain.length := by
      rw [room, hs]
    have hbound := h.bound
    rcases (obstacle?_eq_none.1 ho).2 with hk | ⟨hk, -, hlt⟩
    · -- the next place is the one behind a place of the list
      obtain ⟨i, rfl, hi⟩ := isKnown_iff.1 hk
      obtain ⟨hlt, -⟩ := List.getElem?_eq_some_iff.1 hi
      rw [arrive_known (b := { b with stream := stream }) hk, hroom]
      show b.options.limits.directories - (i + 1) < b.options.limits.directories - i
      omega
    · -- the list is longer by one, and the next place lies behind it
      rw [h.size] at hlt
      have hple : place.getD b.chain.length ≤ b.chain.length := by
        cases place with
        | none => exact Nat.le_refl _
        | some p => exact place_le h.index hs
      have hnew : ((place.map fun _ => b.chain.length).map (· + 1)).getD
          (b.chain ++ [offset]).length = b.chain.length + 1 := by
        cases place <;> simp
      rw [arrive_new (b := { b with stream := stream }) hk, hroom]
      show b.options.limits.directories - ((place.map fun _ => b.chain.length).map (· + 1)).getD
        (b.chain ++ [offset]).length < _
      omega

/-- From a tidy state the walk arrives at some directories, no more than there is room for. The step
after them answers none or a fault, and the walk has stopped. -/
theorem Tidy.stops (h : b.Tidy) :
    ∃ ds : List Directory, ds.length ≤ b.room ∧ ∃ b₁ r b',
      nexts ds.length b = .ok (ds.map some) b₁ ∧ next b₁ = answer b' r ∧
        (∀ d, r ≠ .ok (some d)) ∧ b'.stop.isSome := by
  induction hm : b.room using Nat.strongRecOn generalizing b with
  | ind m ih =>
    by_cases hr : ∃ d b', next b = .ok (some d) b'
    · obtain ⟨d, b', hr⟩ := hr
      have ht : b'.Tidy := leaves_of_ok hr ▸ h.step
      have hlt := h.room_lt hr
      obtain ⟨ds, hle, b₁, r, b'', hds, hlast⟩ := ih _ (hm ▸ hlt) ht rfl
      refine ⟨d :: ds, by rw [List.length_cons]; omega, b₁, r, b'', ?_, hlast⟩
      rw [List.length_cons, nexts, bind_of_ok hr, bind_of_ok hds]
      rfl
    · have hstop := next_stops fun d b' h => hr ⟨d, b', h⟩
      obtain ⟨r, hnext⟩ := exists_answer next b
      refine ⟨[], Nat.zero_le _, b, r, leaves next b, rfl, hnext, ?_, hstop⟩
      rintro d rfl
      exact hr ⟨d, _, hnext⟩

/-! ## Where the walk has stopped -/

/-- The call sets a walk that has stopped going again. -/
def Call.Revives (b : Browser σ) : Call → Prop
  | .rewind | .goTo _ => True
  | .jump offset => ∃ d b', jumpTo offset b = .ok d b'
  | _ => False

/-- None of the calls sets the walk going again. -/
def Rests : Browser σ → List Call → Prop
  | _, [] => True
  | b, call :: calls => ¬ call.Revives b ∧ Rests (leaves call.run b) calls

/-- A walk that has stopped is revived by no other call. -/
theorem Call.stop_of_not_revives (h : b.stop.isSome) {call : Call} (hc : ¬ call.Revives b) :
    (leaves call.run b).stop = b.stop := by
  cases hm : call.isMove with
  | false =>
    obtain ⟨stream, catalog, jumps, hq⟩ := call.run_quiet (b := b) hm
    rw [hq]
  | true =>
    cases call with
    | next => rw [leaves_next, leaves_of_ok (next_stopped h)]
    | rewind | goTo => exact absurd trivial hc
    | jump offset =>
      rw [leaves_jump, leaves]
      have hj := b.jumpTo_jumps offset
      cases hr : jumpTo offset b with
      | ok d b' => exact absurd ⟨d, b', hr⟩ hc
      | error fault b' =>
        rw [hr] at hj
        cases hj <;> rfl
    | _ => cases hm

/-- A walk that has stopped stays so, whatever calls are made but those that set it going again. -/
theorem next_of_rests (h : b.stop.isSome) {calls : List Call} (hc : b.Rests calls) :
    next (b.afterCalls calls) = .ok none (b.afterCalls calls) := by
  induction calls generalizing b with
  | nil => exact next_stopped h
  | cons call calls ih =>
    obtain ⟨hcall, hcalls⟩ := hc
    exact ih (Call.stop_of_not_revives h hcall ▸ h) hcalls

/-- The list of the visited offsets holds each of them once, the set holds the same offsets, and
they are no more than `limit`. The walk arrives at no more directories than that. The step after
them answers none or a fault and stops the walk, and from there on every step answers none and
changes nothing, until a jump that lands, a walk to a place or a rewind. -/
structure Stops (limit : Nat) (b : Browser σ) : Prop where
  nodup : b.chain.Nodup
  mem : ∀ offset, offset ∈ b.visited ↔ offset ∈ b.chain
  size : b.visited.size = b.chain.length
  bound : b.chain.length ≤ limit
  stops : ∃ ds : List Directory, ds.length ≤ limit ∧ ∃ b₁ r b',
    nexts ds.length b = .ok (ds.map some) b₁ ∧ next b₁ = answer b' r ∧
      (∀ d, r ≠ .ok (some d)) ∧ b'.stop.isSome ∧
      ∀ calls, b'.Rests calls → next (b'.afterCalls calls) = .ok none (b'.afterCalls calls)

/-- Every walk stops, from all states that calls lead to and whatever the stream answers. -/
theorem stops_afterCalls {stream : σ} {options : Options} {catalog : Catalog}
    (ho : Browser.ofStream stream options catalog = .ok b) (calls : List Call) :
    (b.afterCalls calls).Stops options.limits.directories := by
  obtain ⟨hnew, hoptions⟩ : b.Tidy ∧ b.options = options := by
    obtain ⟨header, s, -, rfl⟩ := ofStream_eq_ok ho
    exact ⟨tidy_new rfl rfl rfl, rfl⟩
  have ht := hnew.afterCalls calls
  have hlimit : (b.afterCalls calls).options = options := (afterCalls_file calls).2.trans hoptions
  obtain ⟨ds, hle, b₁, r, b', hds, hlast, hr, hstop⟩ := ht.stops
  refine ⟨ht.nodup, ht.mem, ht.size, hlimit ▸ ht.bound, ds, ?_, b₁, r, b', hds, hlast, hr, hstop,
    ?_⟩
  · exact Nat.le_trans hle (hlimit ▸ Nat.sub_le _ _)
  · exact fun calls hc => next_of_rests hstop hc

/-- A classic file with two directories, at 8 and at 26, each of which names the other as its
next. -/
def backAndForth : ByteArray := ⟨#[
  0x49, 0x49, 42, 0, 8, 0, 0, 0,
  1, 0, 0, 1, 3, 0, 1, 0, 0, 0, 100, 0, 0, 0, 26, 0, 0, 0,
  1, 0, 0, 1, 3, 0, 1, 0, 0, 0, 200, 0, 0, 0, 8, 0, 0, 0]⟩

/-- The walk there stops after a jump to the second directory, a step to the first and a jump back
to it: the first one alone was visited. -/
theorem stops_afterCalls_backAndForth :
    ∃ b, Browser.ofStream (Memory.ofBytes backAndForth) {} .standard = .ok b ∧
      (b.afterCalls [.jump 26, .next, .jump 8]).visited.toList = [8] ∧
      (b.afterCalls [.jump 26, .next, .jump 8]).index = some 0 ∧
      (b.afterCalls [.jump 26, .next, .jump 8]).Stops 65536 := by
  obtain ⟨b, ho, hv, hi⟩ : ∃ b,
      Browser.ofStream (Memory.ofBytes backAndForth) {} .standard = .ok b ∧
      (b.afterCalls [.jump 26, .next, .jump 8]).visited.toList = [8] ∧
      (b.afterCalls [.jump 26, .next, .jump 8]).index = some 0 := by
    decide +kernel
  exact ⟨b, ho, hv, hi, stops_afterCalls ho [.jump 26, .next, .jump 8]⟩

end Browser

end TaggedImage
