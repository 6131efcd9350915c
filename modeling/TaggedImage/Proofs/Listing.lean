import TaggedImage.Proofs.Calls
import TaggedImage.Proofs.MemoryContent

/-!
# The chain as a list

Four calls walk along the chain on their own: steps after a rewind, the enumeration, the walk to a
place and the count, which reads no entries. `Directory.listing` is the list of what can be found
along the chain of a content, and each of the four is determined by it, from all states that calls
lead to (`Browser.Lists`, `Browser.lists_afterCalls`). A browser that walks from the beginning of
the chain has some of the list ahead of it (`Browser.Ahead`); every step takes one item off.

The calls that take faults for items answer what is caught of the list (`FileM.caught`). That is the
list itself unless the position of a next offset is no word, for which the content has to end within
eight bytes of the last word.
-/

namespace TaggedImage

open FileM

namespace Directory

/-- What is found along the chain from `offset` on, at most `n` items and up to the first offset
that is in `visited` or where there is no directory that can be parsed. -/
def listing (parse : Nat → Except Fault Directory) (visited : List Nat) (offset : Nat) :
    (n : Nat) → List (Except Fault Directory)
  | 0 => []
  | n + 1 =>
    if offset = 0 ∨ offset ∈ visited then []
    else
      match parse offset with
      | .error fault => [.error fault]
      | .ok d => .ok d :: listing parse (offset :: visited) d.next n

variable {parse : Nat → Except Fault Directory} {visited : List Nat} {offset n : Nat}

/-- The list ends at an offset that stops the walk. -/
theorem listing_of_stop (h : offset = 0 ∨ offset ∈ visited) :
    listing parse visited offset n = [] := by
  cases n with
  | zero => rfl
  | succ n => exact if_pos h

/-- The item at any other offset is what is parsed there, and after a directory the list goes on
with the next one. -/
theorem listing_of_go (h : ¬ (offset = 0 ∨ offset ∈ visited)) :
    listing parse visited offset (n + 1) =
      match parse offset with
      | .error fault => [.error fault]
      | .ok d => .ok d :: listing parse (offset :: visited) d.next n := if_neg h

/-- An offset that is not met again is listed, as a directory or as a fault. -/
theorem listing_ne_nil (h : ¬ (offset = 0 ∨ offset ∈ visited)) :
    listing parse visited offset (n + 1) ≠ [] := by
  rw [listing_of_go h]
  cases parse offset <;> exact List.cons_ne_nil _ _

/-- No more directories are listed than were asked for. -/
theorem length_listing_le (parse : Nat → Except Fault Directory) (visited : List Nat)
    (offset n : Nat) : (listing parse visited offset n).length ≤ n := by
  induction n generalizing visited offset with
  | zero => exact Nat.zero_le _
  | succ n ih =>
    by_cases h : offset = 0 ∨ offset ∈ visited
    · rw [listing_of_stop h]
      exact Nat.zero_le _
    · rw [listing_of_go h]
      cases parse offset with
      | error fault => exact Nat.succ_le_succ (Nat.zero_le _)
      | ok d => exact Nat.succ_le_succ (ih _ _)

/-- The first items of a list are the list of so many directories at most. -/
theorem take_listing (m : Nat) (visited : List Nat) (offset n : Nat) :
    (listing parse visited offset n).take m = listing parse visited offset (min m n) := by
  induction n generalizing m visited offset with
  | zero => rw [Nat.min_zero, listing, List.take_nil]
  | succ n ih =>
    cases m with
    | zero => rw [Nat.zero_min, List.take_zero, listing]
    | succ m =>
      rw [Nat.succ_min_succ]
      by_cases h : offset = 0 ∨ offset ∈ visited
      · rw [listing_of_stop h, listing_of_stop h, List.take_nil]
      · rw [listing_of_go h, listing_of_go h]
        cases parse offset with
        | error fault => rw [List.take_succ_cons, List.take_nil]
        | ok d => exact congrArg (_ :: ·) (ih m _ d.next)

/-- An item is what is parsed at some offset. -/
theorem exists_of_mem_listing {r : Except Fault Directory}
    (h : r ∈ listing parse visited offset n) : ∃ o, parse o = r := by
  induction n generalizing visited offset with
  | zero => cases h
  | succ n ih =>
    by_cases hs : offset = 0 ∨ offset ∈ visited
    · rw [listing_of_stop hs] at h
      cases h
    · rw [listing_of_go hs] at h
      cases hp : parse offset with
      | error fault =>
        rw [hp] at h
        cases List.mem_singleton.1 h
        exact ⟨offset, hp⟩
      | ok d =>
        rw [hp] at h
        rcases List.mem_cons.1 h with rfl | h
        · exact ⟨offset, hp⟩
        · exact ih h

/-- Only the last item can be a fault. -/
theorem listing_eq_of_error_mem {fault : Fault}
    (h : .error fault ∈ listing parse visited offset n) :
    ∃ ds : List Directory, listing parse visited offset n = ds.map .ok ++ [.error fault] := by
  induction n generalizing visited offset with
  | zero => cases h
  | succ n ih =>
    by_cases hs : offset = 0 ∨ offset ∈ visited
    · rw [listing_of_stop hs] at h
      cases h
    · rw [listing_of_go hs] at h ⊢
      cases hp : parse offset with
      | error fault' =>
        rw [hp] at h
        rw [List.mem_singleton.1 h]
        exact ⟨[], rfl⟩
      | ok d =>
        rw [hp] at h
        obtain ⟨ds, hds⟩ := ih ((List.mem_cons.1 h).resolve_left nofun)
        exact ⟨d :: ds, congrArg (_ :: ·) hds⟩

end Directory

open Directory

namespace Browser

variable {σ : Type} [Stream σ] {P : σ → Prop} {content : ByteArray} {b : Browser σ}

/-- What is found along the chain of the file. -/
def listing (b : Browser σ) (content : ByteArray) : List (Except Fault Directory) :=
  Directory.listing (b.parseAt content) [] b.header.first b.options.limits.directories

omit [Stream σ] in
/-- In a content that ends eight bytes before the last word, all items are caught as they are. -/
theorem caught_of_mem_listing (hsize : content.size + 8 ≤ Word.max) {r : Except Fault Directory}
    (h : r ∈ b.listing content) : caught r = .ok r := by
  obtain ⟨o, hp⟩ := exists_of_mem_listing h
  refine caught_eq fun fault hr => ?_
  have hown : Answers (Fault.IsOwn content) Directory.Sized (b.parseAt content o) :=
    answers_parse b.catalog o
  rw [hp, hr] at hown
  exact Fault.IsOwn.not_stops hown hsize

/-! ## Enumerating -/

/-- An attempt to read a directory answers what is caught of parsing it. -/
theorem attempt_directoryAt (hP : Serves P content) (hb : P b.stream) (offset : Nat) :
    ∃ s, P s ∧ (directoryAt offset).attempt b =
      answer { b with stream := s } (caught (b.parseAt content offset)) := by
  obtain ⟨s, hs, hr⟩ := directoryAt_eq hP hb offset
  exact ⟨s, hs, attempt_eq hr⟩

/-- The enumeration from an offset on answers what is caught of the list from there. -/
theorem walk_eq (hP : Serves P content) (hb : P b.stream) (visited : List Nat) (offset n : Nat) :
    ∃ b', walk visited offset n b =
      answer b' ((Directory.listing (b.parseAt content) visited offset n).mapM caught) := by
  induction n generalizing b visited offset with
  | zero => exact ⟨b, rfl⟩
  | succ n ih =>
    rw [walk]
    by_cases h : offset = 0 ∨ offset ∈ visited
    · rw [if_pos h, listing_of_stop h]
      exact ⟨b, rfl⟩
    · rw [if_neg h, listing_of_go h]
      obtain ⟨s, hs, ha⟩ := attempt_directoryAt hP hb offset
      cases hp : b.parseAt content offset with
      | error fault =>
        rw [hp] at ha
        dsimp only
        rw [List.mapM_cons]
        cases hf : fault.stops with
        | true =>
          rw [caught_of_stops hf] at ha ⊢
          exact ⟨_, bind_of_error ha⟩
        | false =>
          rw [caught_of_not_stops hf] at ha ⊢
          exact ⟨_, bind_of_ok ha⟩
      | ok d =>
        rw [hp] at ha
        obtain ⟨b', hw⟩ := ih (b := { b with stream := s }) hs (offset :: visited) d.next
        dsimp only
        rw [List.mapM_cons]
        exact ⟨b', (bind_of_ok ha).trans (bind_pure_eq hw _)⟩

/-- The enumeration answers the first items of the list. -/
theorem enumerate_eq (hP : Serves P content) (hb : P b.stream) (most : Nat) :
    ∃ b', enumerate most b = answer b' (((b.listing content).take most).mapM caught) := by
  rw [listing, take_listing]
  exact walk_eq hP hb [] b.header.first _

/-! ## Steps -/

/-- The browser walks from the beginning of the chain, has come to `offset`, and `rest` is what is
left of the list. -/
structure Ahead (P : σ → Prop) (content : ByteArray) (offset : Nat)
    (rest : List (Except Fault Directory)) (b : Browser σ) : Prop where
  stream : P b.stream
  tracks : b.Tracks
  going : b.stop = none
  place : b.successor = (offset, some b.chain.length)
  nonzero : 0 ∉ b.chain
  rest : Directory.listing (b.parseAt content) b.chain.reverse offset
    (b.options.limits.directories - b.chain.length) = rest

variable {offset : Nat} {rest : List (Except Fault Directory)}

omit [Stream σ] in
/-- From the start, the whole chain is ahead. -/
theorem ahead_rewound (hb : P b.stream) :
    Ahead P content b.header.first (b.listing content) b.rewound :=
  ⟨hb, tracks_new rfl rfl, rfl, rfl, List.not_mem_nil, rfl⟩

omit [Stream σ] in
/-- Where something is left, nothing holds the walk up, and the first item is what is parsed. -/
theorem Ahead.of_cons {r : Except Fault Directory} (h : Ahead P content offset (r :: rest) b) :
    b.obstacle? offset (some b.chain.length) = none ∧ b.parseAt content offset = r ∧
      rest = match r with
        | .error _ => []
        | .ok d => Directory.listing (b.parseAt content) (b.chain ++ [offset]).reverse d.next
            (b.options.limits.directories - (b.chain ++ [offset]).length) := by
  have hr := h.rest
  by_cases hs : offset = 0 ∨ offset ∈ b.chain.reverse
  · rw [listing_of_stop hs] at hr
    cases hr
  · cases hn : b.options.limits.directories - b.chain.length with
    | zero =>
      rw [hn] at hr
      cases hr
    | succ n =>
      rw [hn, listing_of_go hs] at hr
      have hrest : b.options.limits.directories - (b.chain ++ [offset]).length = n := by
        rw [List.length_append, List.length_singleton]
        omega
      rw [List.mem_reverse, not_or] at hs
      have ho : b.obstacle? offset (some b.chain.length) = none := by
        rw [h.tracks.obstacle?_eq, isKnown_length, if_neg hs.1, if_neg Bool.false_ne_true,
          if_neg hs.2, if_neg (by omega)]
      refine ⟨ho, ?_⟩
      rw [hrest, List.reverse_append]
      cases hp : b.parseAt content offset <;> rw [hp] at hr <;> cases hr <;> exact ⟨rfl, rfl⟩

/-- If a directory is ahead, a step answers it; then what follows is ahead, and the offset of the
directory is recorded. -/
theorem Ahead.next_of_ok (hP : Serves P content) {d : Directory}
    (h : Ahead P content offset (.ok d :: rest) b) :
    ∃ b', next b = .ok (some d) b' ∧ Ahead P content d.next rest b' ∧ b'.current = some d ∧
      b'.index = some b.chain.length ∧ b'.chain = b.chain ++ [d.offset] := by
  obtain ⟨ho, hp, hrest⟩ := h.of_cons
  obtain ⟨s, hs, hr⟩ := directoryAt_eq hP h.stream offset
  rw [hp] at hr
  have ht : (({ b with stream := s } : Browser σ).arrive d offset (some b.chain.length)).Tracks :=
    Tracks.arrive d offset _ (h.tracks.of_eq rfl rfl) (not_visited_of_obstacle ho)
  rw [arrive_new (isKnown_length _ _)] at ht
  refine ⟨_, ?_, ⟨hs, ht, h.going, ?_, ?_, hrest.symm⟩, rfl, rfl, ?_⟩
  · rw [next_reads h.going h.place ho, hr, answer_ok]
    dsimp only
    rw [arrive_new (isKnown_length _ _)]
  · rw [List.length_append]
    rfl
  · rw [List.mem_append, List.mem_singleton, not_or]
    exact ⟨h.nonzero, (obstacle?_eq_none.1 ho).1.symm⟩
  · rw [offset_of_parse hp]

/-- If a fault is ahead, it is the last item; a step raises it and stops the walk. -/
theorem Ahead.next_of_error (hP : Serves P content) {fault : Fault}
    (h : Ahead P content offset (.error fault :: rest) b) :
    rest = [] ∧ ∃ b', next b = .error fault b' ∧ b'.stop.isSome := by
  obtain ⟨ho, hp, hrest⟩ := h.of_cons
  obtain ⟨s, -, hr⟩ := directoryAt_eq hP h.stream offset
  rw [hp] at hr
  exact ⟨hrest, _, by rw [next_reads h.going h.place ho, hr, answer_error], rfl⟩

/-- If nothing is ahead, a step answers none and tells why: a cycle, the end of the chain or the
limit. -/
theorem Ahead.next_of_nil (h : Ahead P content offset [] b) :
    ∃ b', next b = .ok none b' ∧ b'.chain = b.chain ∧
      b'.stop = some (if offset ∈ b.chain then .cycle offset
        else if offset = 0 then .endOfChain else .limit) := by
  refine ⟨_, next_stop h.going h.place ?_, rfl, rfl⟩
  rw [h.tracks.obstacle?_eq, isKnown_length, if_neg Bool.false_ne_true]
  by_cases hv : offset ∈ b.chain
  · rw [if_neg fun h0 : offset = 0 => h.nonzero (h0 ▸ hv), if_pos hv, if_pos hv]
  · rw [if_neg hv, if_neg hv]
    by_cases h0 : offset = 0
    · rw [if_pos h0, if_pos h0]
    · -- the list can only have ended because no more are allowed
      have hfull : b.options.limits.directories ≤ b.chain.length := by
        refine Nat.le_of_not_lt fun hlt => ?_
        have hr := h.rest
        rw [← Nat.sub_add_cancel (Nat.sub_pos_of_lt hlt)] at hr
        exact listing_ne_nil (not_or.2 ⟨h0, fun hm => hv (List.mem_reverse.1 hm)⟩) hr
      rw [if_neg h0, if_neg h0, if_pos hfull]

/-- What the next `n` steps along the chain answer, faults included. -/
def outcomes : Nat → FileM (Browser σ) (List (Except Fault (Option Directory)))
  | 0 => return []
  | n + 1 => do
    let r ← next.attempt
    return r :: (← outcomes n)

/-- One step, and then the others from where it leads, unless its fault stops the program. -/
theorem outcomes_succ {n : Nat} {r : Except Fault (Option Directory)} {b' : Browser σ}
    {rs : List (Except Fault (Option Directory))} (h : next b = answer b' r)
    (hs : ∃ b'', outcomes n b' = answer b'' (rs.mapM caught)) :
    ∃ b'', outcomes (n + 1) b = answer b'' ((r :: rs).mapM caught) := by
  obtain ⟨b'', hs⟩ := hs
  have ha := attempt_eq h
  rw [outcomes, List.mapM_cons]
  cases hc : caught r with
  | error fault =>
    rw [hc] at ha
    exact ⟨b', bind_of_error ha⟩
  | ok r' =>
    rw [hc] at ha
    exact ⟨b'', (bind_of_ok ha).trans (bind_pure_eq hs _)⟩

/-- Where the walk has stopped, every step answers nothing. -/
theorem outcomes_of_stop (h : b.stop.isSome) (n : Nat) :
    ∃ b', outcomes n b = answer b' ((List.replicate n (.ok none)).mapM caught) := by
  induction n with
  | zero => exact ⟨b, rfl⟩
  | succ n ih => exact outcomes_succ (r := .ok none) (next_stopped h) ih

/-- The answers of `n` steps over some items: the items, and none behind the last of them. -/
def answersOver (rs : List (Except Fault Directory)) (n : Nat) :
    List (Except Fault (Option Directory)) :=
  (rs.take n).map (·.map some) ++ List.replicate (n - rs.length) (.ok none)

omit [Stream σ] in
/-- Behind the chain, every further call answers that there is none. -/
theorem answersOver_nil (n : Nat) : answersOver [] n = List.replicate n (.ok none) := by
  rw [answersOver, List.take_nil]
  rfl

omit [Stream σ] in
/-- The first call answers the first item, the other calls the others. -/
theorem answersOver_cons (r : Except Fault Directory) (rs : List (Except Fault Directory))
    (n : Nat) : answersOver (r :: rs) (n + 1) = r.map some :: answersOver rs n := by
  rw [answersOver, List.length_cons, Nat.add_sub_add_right, List.take_succ_cons]
  rfl

/-- The next steps are over what is left of the list. -/
theorem Ahead.outcomes_eq (hP : Serves P content) (h : Ahead P content offset rest b) (n : Nat) :
    ∃ b', outcomes n b = answer b' ((answersOver rest n).mapM caught) := by
  induction n generalizing b offset rest with
  | zero => exact ⟨b, by rw [answersOver, List.take_zero, Nat.zero_sub]; rfl⟩
  | succ n ih =>
    cases rest with
    | nil =>
      obtain ⟨b', hn, -, hstop⟩ := h.next_of_nil
      rw [answersOver_nil]
      exact outcomes_succ (r := .ok none) hn (outcomes_of_stop (hstop ▸ rfl) n)
    | cons r rest =>
      rw [answersOver_cons]
      cases r with
      | error fault =>
        obtain ⟨rfl, b', hn, hstop⟩ := h.next_of_error hP
        rw [answersOver_nil]
        exact outcomes_succ (r := .error fault) hn (outcomes_of_stop hstop n)
      | ok d =>
        obtain ⟨b', hn, hb', -⟩ := h.next_of_ok hP
        exact outcomes_succ (r := .ok (some d)) hn (ih hb')

/-! ## The walk to a place -/

/-- The walk over some directories that are ahead comes to what follows them, with as many steps
less to go. -/
theorem Ahead.advance_append (hP : Serves P content) {ds : List Directory}
    (h : Ahead P content offset (ds.map .ok ++ rest) b) :
    ∃ offset' b', Ahead P content offset' rest b' ∧ b'.chain = b.chain ++ ds.map (·.offset) ∧
      ∀ index n, advance index (ds.length + n) b = advance index n b' := by
  induction ds generalizing b offset with
  | nil => exact ⟨offset, b, h, by simp, fun _ n => by rw [List.length_nil, Nat.zero_add]⟩
  | cons d ds ih =>
    obtain ⟨b₁, hn, h₁, -, -, hc₁⟩ := h.next_of_ok hP
    obtain ⟨offset', b', hb', hc, ha⟩ := ih h₁
    refine ⟨offset', b', hb', ?_, fun index n => ?_⟩
    · rw [hc, hc₁, List.append_assoc]
      rfl
    · rw [List.length_cons, Nat.add_right_comm, advance_of_some hn, ha]

/-- The walk over some directories, after which the last of them is the current one. -/
theorem Ahead.advance_concat (hP : Serves P content) {ds : List Directory} {d : Directory}
    (h : Ahead P content offset ((ds ++ [d]).map .ok ++ rest) b) :
    ∃ b', Ahead P content d.next rest b' ∧ b'.current = some d ∧
      b'.index = some (b.chain.length + ds.length) ∧
      b'.chain = b.chain ++ (ds ++ [d]).map (·.offset) ∧
      ∀ index n, advance index (ds.length + 1 + n) b = advance index n b' := by
  rw [List.map_append, List.append_assoc] at h
  obtain ⟨_, b₁, h₁, hc₁, ha₁⟩ := h.advance_append hP
  obtain ⟨b', hn, hb', hcurrent, hindex, hc⟩ := h₁.next_of_ok hP
  refine ⟨b', hb', hcurrent, ?_, ?_, fun index n => ?_⟩
  · rw [hindex, hc₁, List.length_append, List.length_map]
  · rw [hc, hc₁, List.map_append, List.append_assoc]
    rfl
  · rw [Nat.add_assoc, Nat.add_comm 1 n, ha₁, advance_of_some hn]

/-- To go to a place is to advance to it from the start. -/
theorem goTo_eq (b : Browser σ) (n : Nat) : goTo n b = advance n (n + 1) b.rewound := rfl

/-- A place up to which every item is a directory can be gone to. -/
theorem goTo_of_ok (hP : Serves P content) (hb : P b.stream) {n : Nat} {ds : List Directory}
    {d : Directory} (hn : ds.length = n)
    (h : (b.listing content).take (n + 1) = (ds ++ [d]).map .ok) :
    ∃ b', goTo n b = .ok d b' ∧ b'.index = some n := by
  have ha : Ahead P content _ _ b.rewound := ahead_rewound hb
  rw [← List.take_append_drop (n + 1) (b.listing content), h] at ha
  obtain ⟨b', -, hcurrent, hindex, -, hadvance⟩ := ha.advance_concat hP
  refine ⟨b', ?_, ?_⟩
  · rw [goTo_eq, ← hn]
    exact (hadvance _ 0).trans (advance_zero hcurrent)
  · rw [hindex, ← hn]
    exact congrArg some (Nat.zero_add _)

/-- The walk to a place behind a fault ends with the fault. -/
theorem goTo_of_error (hP : Serves P content) (hb : P b.stream) {n : Nat} {fault : Fault}
    (h : .error fault ∈ (b.listing content).take (n + 1)) : ∃ b', goTo n b = .error fault b' := by
  obtain ⟨ds, hds⟩ := listing_eq_of_error_mem (List.mem_of_mem_take h)
  have hle : ds.length ≤ n := by
    refine Nat.le_of_not_lt fun hlt => ?_
    rw [listing, hds, List.take_append_of_le_length (by rwa [List.length_map])] at h
    obtain ⟨_, -, hd⟩ := List.mem_map.1 (List.mem_of_mem_take h)
    cases hd
  have ha : Ahead P content _ _ b.rewound := ahead_rewound hb
  rw [listing, hds] at ha
  obtain ⟨_, b₁, h₁, -, hadvance⟩ := ha.advance_append hP
  obtain ⟨-, b', hn, -⟩ := h₁.next_of_error hP
  refine ⟨b', ?_⟩
  rw [goTo_eq, show n + 1 = ds.length + (n - ds.length + 1) by omega, hadvance,
    advance_of_error hn]

/-- The walk from behind the last item says why the list ends. -/
theorem Ahead.advance_of_nil (h : Ahead P content offset [] b) (index n : Nat) :
    ∃ b', advance index (n + 1) b =
      .error (if offset ∈ b.chain then .cycle offset
        else .outOfRange index 1 b.chain.length) b' := by
  obtain ⟨b', hn, hc, hstop⟩ := h.next_of_nil
  refine ⟨b', ?_⟩
  rw [advance_of_none hn, hstop, hc]
  by_cases hv : offset ∈ b.chain
  · rw [if_pos hv, if_pos hv]
  · rw [if_neg hv, if_neg hv]
    by_cases h0 : offset = 0
    · rw [if_pos h0]
    · rw [if_neg h0]

/-- The fault of the walk to a place behind these directories, which are all there are. -/
def endFault (index : Nat) (ds : List Directory) : Fault :=
  match ds.getLast? with
  | some d => if d.next ∈ ds.map (·.offset) then .cycle d.next else .outOfRange index 1 ds.length
  | none => .outOfRange index 1 0

/-- The walk to a place behind the end of the list says why the list ends. -/
theorem goTo_of_short (hP : Serves P content) (hb : P b.stream) {n : Nat} {ds : List Directory}
    (h : b.listing content = ds.map .ok) (hn : ds.length ≤ n) :
    ∃ b', goTo n b = .error (endFault n ds) b' := by
  have ha : Ahead P content _ _ b.rewound := ahead_rewound hb
  rw [h] at ha
  rcases List.eq_nil_or_concat ds with rfl | ⟨pre, d, rfl⟩
  · obtain ⟨b', hb'⟩ := ha.advance_of_nil n n
    exact ⟨b', hb'⟩
  · rw [List.concat_eq_append] at hn ⊢
    rw [List.concat_eq_append, ← List.append_nil (List.map _ _)] at ha
    obtain ⟨b₁, h₁, -, -, hc₁, hadvance⟩ := ha.advance_concat hP
    obtain ⟨b', hb'⟩ := h₁.advance_of_nil n (n - (pre.length + 1))
    rw [hc₁] at hb'
    rw [List.length_append, List.length_singleton] at hn
    refine ⟨b', ?_⟩
    rw [goTo_eq, show n + 1 = pre.length + 1 + (n - (pre.length + 1) + 1) by omega, hadvance, hb',
      endFault, List.getLast?_concat]
    dsimp only
    rw [show b.rewound.chain = [] from rfl, List.nil_append, List.length_map]

/-! ## Counting -/

/-- What the count finds at an offset is what a reader of the directory there takes as its next one,
unless that is cut off; then it is zero for the reader, and a fault for the count. -/
theorem nextOffsetIn_cases (header : Header) (hword : content.size ≤ Word.max) (offset : Nat) :
    nextOffsetIn header content offset = .ok (nextAt header content offset) ∨
      (∃ fault, nextOffsetIn header content offset = .error fault) ∧
        nextAt header content offset = 0 := by
  unfold nextOffsetIn nextAt linkIn
  dsimp only
  generalize header.order.numberAt content offset header.width.countSize = count
  cases hlen : Word.mul? count header.width.entrySize with
  | none =>
    have hfar : Word.max < count * header.width.entrySize := by grind [Word.mul?]
    exact .inr ⟨⟨_, rfl⟩, by rw [if_neg (by omega)]⟩
  | some len =>
    obtain ⟨rfl, -⟩ := Word.mul?_eq_some_iff.1 hlen
    dsimp only
    split
    · next hc => exact .inr ⟨⟨_, rfl⟩, by rw [if_neg (Nat.not_le_of_lt hc)]⟩
    · next hc => exact .inl (by rw [if_pos (Nat.le_of_not_lt hc)])

/-- What the count finds at an offset. Where there is a directory, the next offset is found, or is
cut off and there is no next one; elsewhere the stream may refuse the bytes. -/
theorem nextOffset_finds (hP : Serves P content) (hR : Refuses P content) (hb : P b.stream)
    (offset : Nat) :
    ∃ r s, P s ∧ nextOffset b.header offset b.stream = answer s r ∧
      (∀ fault, r = .error fault → fault.stops = false) ∧
      ∀ d, b.parseAt content offset = .ok d →
        r = .ok d.next ∨ (∃ fault, r = .error fault) ∧ d.next = 0 := by
  obtain ⟨r, hr⟩ := exists_answer (nextOffset b.header offset) b.stream
  have he := nextOffset_confined hP hR b.header offset
  refine ⟨r, _, he.leaves hb, hr, ?_, fun d hd => ?_⟩
  · rintro fault rfl
    exact ((he _ hb).error hr).2
  · obtain ⟨_, hc, -⟩ := bind_eq_ok.1 hd
    obtain ⟨s', -, hg⟩ :=
      nextOffset_gives hP b.header (hR.word hb) (Directory.countSize_le_of_countIn hc) b.stream hb
    rw [(answer_inj (hr.symm.trans hg)).1, Directory.next_of_parse hd]
    exact nextOffsetIn_cases b.header (hR.word hb) offset

/-- The count goes on as far as the list does, and beyond it at most over directories that cannot be
parsed. -/
theorem countFrom_yields (hP : Serves P content) (hR : Refuses P content) (hb : P b.stream)
    {parse : Nat → Except Fault Directory} (hparse : b.parseAt content = parse)
    (visited : List Nat) (offset n : Nat) :
    Yields (countFrom visited offset n) b fun c _ =>
      visited.length + (Directory.listing parse visited offset n).length ≤ c ∧
      c ≤ visited.length + n ∧
      ((∀ fault, .error fault ∉ Directory.listing parse visited offset n) →
        c = visited.length + (Directory.listing parse visited offset n).length) := by
  induction n generalizing b visited offset with
  | zero => exact ⟨_, b, rfl, Nat.le_refl _, Nat.le_refl _, fun _ => rfl⟩
  | succ n ih =>
    by_cases h : offset = 0 ∨ offset ∈ visited
    · rw [listing_of_stop h]
      exact ⟨_, b, countFrom_of_stop h, Nat.le_refl _, Nat.le_add_right _ _, fun _ => rfl⟩
    · rw [listing_of_go h]
      obtain ⟨r, s, hs, hn, hstops, hr⟩ := nextOffset_finds hP hR hb offset
      rw [hparse] at hr
      cases r with
      | error fault =>
        have hgoes : ¬ fault.stops = true := by rw [hstops fault rfl]; decide
        refine ⟨_, _, (countFrom_of_error h hn).trans (if_neg hgoes), ?_⟩
        cases hp : parse offset with
        | error fault' => exact ⟨Nat.le_refl _, by omega, fun hno => absurd (.head _) (hno fault')⟩
        | ok d =>
          -- the chain cannot be followed behind the directory, and the list ends there too
          obtain ⟨-, h0⟩ := (hr d hp).resolve_left nofun
          dsimp only
          rw [listing_of_stop (.inl h0)]
          exact ⟨Nat.le_refl _, by omega, fun _ => rfl⟩
      | ok next =>
        obtain ⟨c, b', hc, hle, hmax, heq⟩ :=
          ih (b := { b with stream := s }) hs hparse (offset :: visited) next
        refine ⟨c, b', (countFrom_of_ok h hn).trans hc, ?_⟩
        rw [List.length_cons] at hle hmax heq
        cases hp : parse offset with
        | error fault =>
          refine ⟨?_, by omega, fun hno => absurd (.head _) (hno fault)⟩
          rw [List.length_singleton]
          omega
        | ok d =>
          cases (hr d hp).resolve_right fun hf => nomatch hf.1.choose_spec
          dsimp only
          rw [List.length_cons]
          refine ⟨by omega, by omega, fun hno => ?_⟩
          have := heq fun fault hm => hno fault (.tail _ hm)
          omega

/-! ## All four -/

/-- The four ways to walk along the chain all find the items `rs`, the last of which may be a fault.
Where a fault is taken for an item, it is caught unless it stops the program. -/
structure Lists (b : Browser σ) (rs : List (Except Fault Directory)) : Prop where
  /-- There are no more than are allowed, so that an enumeration of so many is the whole list. -/
  bound : rs.length ≤ b.options.limits.directories
  enumerate : ∀ most, ∃ b', enumerate most b = answer b' ((rs.take most).mapM caught)
  /-- Steps after a rewind answer the items one by one, and then none. -/
  steps : ∀ n, ∃ b', outcomes n b.rewound = answer b' ((answersOver rs n).mapM caught)
  /-- The walk to a place comes there exactly if all items up to it are directories. -/
  found : ∀ n d, Yields (goTo n) b (fun d' b' => d' = d ∧ b'.index = some n) ↔
    ∃ ds : List Directory, ds.length = n ∧ rs.take (n + 1) = (ds ++ [d]).map .ok
  /-- Otherwise it fails as the first item does that is a fault, -/
  failed : ∀ n fault, .error fault ∈ rs.take (n + 1) → ∃ b', goTo n b = .error fault b'
  /-- or it says why the chain ends. -/
  short : ∀ n ds, rs = ds.map .ok → ds.length ≤ n → ∃ b', goTo n b = .error (endFault n ds) b'
  /-- The count is that of the items, but may go on behind a fault. -/
  count : Yields count b fun c _ => rs.length ≤ c ∧ c ≤ b.options.limits.directories ∧
    ((∀ fault, .error fault ∉ rs) → c = rs.length)

/-- Some of the answers is a fault, or all are directories. -/
theorem error_mem_or_eq_map_ok (rs : List (Except Fault Directory)) :
    (∃ fault, .error fault ∈ rs) ∨ ∃ ds : List Directory, rs = ds.map .ok := by
  induction rs with
  | nil => exact .inr ⟨[], rfl⟩
  | cons r rs ih =>
    cases r with
    | error fault => exact .inl ⟨fault, .head _⟩
    | ok d =>
      rcases ih with ⟨fault, hm⟩ | ⟨ds, rfl⟩
      · exact .inl ⟨fault, .tail _ hm⟩
      · exact .inr ⟨d :: ds, rfl⟩

/-- Up to a place one of the items is a fault, or all of them are directories, or there are fewer.
-/
theorem take_cases (rs : List (Except Fault Directory)) (n : Nat) :
    (∃ fault, .error fault ∈ rs.take (n + 1)) ∨
    (∃ (ds : List Directory) (d : Directory), ds.length = n ∧
      rs.take (n + 1) = (ds ++ [d]).map .ok) ∨
    ∃ ds : List Directory, rs = ds.map .ok ∧ ds.length ≤ n := by
  rcases error_mem_or_eq_map_ok (rs.take (n + 1)) with hf | ⟨ds, hds⟩
  · exact .inl hf
  · have hlen : ds.length = min (n + 1) rs.length := by
      rw [← List.length_take, hds, List.length_map]
    by_cases hr : rs.length ≤ n
    · rw [List.take_of_length_le (by omega)] at hds
      exact .inr (.inr ⟨ds, hds, by omega⟩)
    · obtain ⟨pre, d, rfl⟩ := (List.eq_nil_or_concat ds).resolve_left fun h0 => by
        rw [h0, List.length_nil] at hlen
        omega
      rw [List.concat_eq_append] at hds
      rw [List.length_concat] at hlen
      exact .inr (.inl ⟨pre, d, by omega, hds⟩)

/-- On every stream that serves a content, and goes on after a refusal, the chain is that of the
content. -/
theorem lists_of_serves (hP : Serves P content) (hR : Refuses P content) (hb : P b.stream) :
    b.Lists (b.listing content) where
  bound := length_listing_le _ _ _ _
  enumerate := enumerate_eq hP hb
  steps := (ahead_rewound hb).outcomes_eq hP
  found n d := by
    constructor
    · rintro ⟨_, b', hgo, rfl, -⟩
      rcases take_cases (b.listing content) n with ⟨fault, hf⟩ | ⟨ds, d', hn, hd⟩ | ⟨ds, hds, hn⟩
      · obtain ⟨_, hf⟩ := goTo_of_error hP hb hf
        rw [hf] at hgo
        cases hgo
      · obtain ⟨_, hd', -⟩ := goTo_of_ok hP hb hn hd
        rw [hd'] at hgo
        cases hgo
        exact ⟨ds, hn, hd⟩
      · obtain ⟨_, hf⟩ := goTo_of_short hP hb hds hn
        rw [hf] at hgo
        cases hgo
    · rintro ⟨ds, hn, h⟩
      obtain ⟨b', hgo, hi⟩ := goTo_of_ok hP hb hn h
      exact ⟨d, b', hgo, rfl, hi⟩
  failed n fault := goTo_of_error hP hb
  short n ds := goTo_of_short hP hb
  count := by
    obtain ⟨c, b', hc, hle, hmax, heq⟩ := countFrom_yields hP hR hb rfl [] b.header.first
      b.options.limits.directories
    rw [List.length_nil, Nat.zero_add] at hle hmax heq
    exact ⟨c, b', hc, hle, hmax, heq⟩

/-- From every state that calls lead to, the four walks find the same items, which are those of the
chain in the content. All of them are caught as they are if the content ends eight bytes before the
last word. -/
theorem lists_afterCalls (hP : Serves P content) (hR : Refuses P content) {stream : σ}
    (hs : P stream) {options : Options} {catalog : Catalog}
    (ho : Browser.ofStream stream options catalog = .ok b) (calls : List Call) :
    (b.afterCalls calls).Lists ((b.afterCalls calls).listing content) ∧
      (content.size + 8 ≤ Word.max →
        ∀ r ∈ (b.afterCalls calls).listing content, caught r = .ok r) :=
  ⟨lists_of_serves hP hR (afterCalls_keeps (I := fun b => P b.stream)
    (fun _ call h => call.run_keeps hP hR h) (ofStream_keeps hP hs ho) calls),
    fun hsize _ hr => caught_of_mem_listing hsize hr⟩

/-- A classic file with a directory at 8 and its next one at 26. That one has no entries, so that it
cannot be parsed, but names a third one at 32, which is empty too and has no next one. -/
def emptyNext : ByteArray := ⟨#[
  0x49, 0x49, 42, 0, 8, 0, 0, 0,
  1, 0, 0, 1, 3, 0, 1, 0, 0, 0, 100, 0, 0, 0, 26, 0, 0, 0,
  0, 0, 32, 0, 0, 0,
  0, 0, 0, 0, 0, 0]⟩

/-- The list there is a directory and a fault that is caught, and the count is three. -/
theorem lists_afterCalls_emptyNext :
    ∃ b, Browser.ofStream (Memory.ofBytes emptyNext) {} .standard = .ok b ∧
      ((b.afterCalls [.next, .jump 8, .next]).listing emptyNext).length = 2 ∧
      Yields count (b.afterCalls [.next, .jump 8, .next]) (fun c _ => c = 3) ∧
      (b.afterCalls [.next, .jump 8, .next]).Lists
        ((b.afterCalls [.next, .jump 8, .next]).listing emptyNext) ∧
      ∀ r ∈ (b.afterCalls [.next, .jump 8, .next]).listing emptyNext, caught r = .ok r := by
  obtain ⟨b, ho, hl, hc⟩ :
      ∃ b, Browser.ofStream (Memory.ofBytes emptyNext) {} .standard = .ok b ∧
        ((b.afterCalls [.next, .jump 8, .next]).listing emptyNext).length = 2 ∧
        Yields count (b.afterCalls [.next, .jump 8, .next]) (fun c _ => c = 3) := by
    decide +kernel
  have hm : (Memory.ofBytes emptyNext).Holds emptyNext := Memory.holds_ofBytes (by decide)
  obtain ⟨hlists, hcaught⟩ := lists_afterCalls (Memory.serves _) (Memory.refuses _) hm ho
    [.next, .jump 8, .next]
  exact ⟨b, ho, hl, hc, hlists, hcaught (by decide)⟩

end Browser

end TaggedImage
