import TaggedImage.Browser
import TaggedImage.Proofs.Parsing

/-!
# The walk along a chain that ends

`Directory.Chain` says which directories follow each other from an offset on. `Browser.next`, called
again and again on such a chain, answers its directories one by one. Whether it comes to the end
depends on the offsets visited before: `Browser.Walkable` is the exact condition
(`Browser.walk_chain`). A browser keeps these offsets twice, as a list and as a set; that the two
hold the same (`Browser.Tracks`) is kept by every arrival. A count of the directories reads none of
them; `Browser.countFrom_of_stop`, `Browser.countFrom_of_ok` and `Browser.countFrom_of_error` say
what one step of it does.
-/

namespace TaggedImage

open FileM

/-- The directories that follow each other from `offset` on, the last of which has no next; `parse`
gives the directory at an offset. -/
def Directory.Chain (parse : Nat → Except Fault Directory) : Nat → List Directory → Prop
  | offset, [] => offset = 0
  | offset, d :: ds => offset ≠ 0 ∧ parse offset = .ok d ∧ Directory.Chain parse d.next ds

namespace Directory.Chain

variable {parse : Nat → Except Fault Directory} {offset : Nat} {ds : List Directory}

/-- From an offset on there is at most one chain. -/
theorem unique {ds' : List Directory} (h : Chain parse offset ds) (h' : Chain parse offset ds') :
    ds = ds' := by
  induction ds generalizing offset ds' with
  | nil =>
    cases ds' with
    | nil => rfl
    | cons d' ds' => exact absurd h h'.1
  | cons d ds ih =>
    cases ds' with
    | nil => exact absurd h' h.1
    | cons d' ds' =>
      obtain ⟨-, hd, hn⟩ := h
      obtain ⟨-, hd', hn'⟩ := h'
      rw [hd] at hd'
      cases hd'
      rw [ih hn hn']

/-- The directories after any one of a chain are the chain from its next offset on. -/
theorem of_append {pre : List Directory} {d : Directory} {post : List Directory}
    (h : Chain parse offset (pre ++ d :: post)) : ∃ o, Chain parse o (d :: post) := by
  induction pre generalizing offset with
  | nil => exact ⟨offset, h⟩
  | cons _ _ ih => exact ih h.2.2

/-- A chain that ends meets no offset twice. -/
theorem nodup (hp : ∀ {o d}, parse o = .ok d → d.offset = o) (h : Chain parse offset ds) :
    (ds.map (·.offset)).Nodup := by
  induction ds generalizing offset with
  | nil => exact .nil
  | cons d ds ih =>
    refine List.nodup_cons.2 ⟨fun hmem => ?_, ih h.2.2⟩
    obtain ⟨d', hd', he⟩ := List.mem_map.1 hmem
    obtain ⟨pre, post, rfl⟩ := List.append_of_mem hd'
    obtain ⟨o, ho⟩ := h.2.2.of_append
    -- the chain from the repeated offset would be as long as a proper part of itself
    have ho' : o = offset := (hp ho.2.1).symm.trans (he.trans (hp h.2.1))
    have := congrArg List.length (unique (ho' ▸ ho) h)
    simp only [List.length_cons, List.length_append] at this
    omega

/-- A chain that ends has no more directories than the file has bytes. -/
theorem length_le {header : Header} {options : Options} {catalog : Catalog} {content : ByteArray}
    (h : Chain (Directory.parse header options catalog content) offset ds) :
    ds.length ≤ content.size := by
  have hin : ∀ o ∈ ds.map (·.offset), o ∈ List.range content.size := by
    intro o ho
    obtain ⟨d, hd, rfl⟩ := List.mem_map.1 ho
    obtain ⟨pre, post, rfl⟩ := List.append_of_mem hd
    obtain ⟨o, -, hp, -⟩ := h.of_append
    rw [offset_of_parse hp, List.mem_range]
    exact offset_lt_of_parse hp
  have := (h.nodup offset_of_parse).length_le_of_subset hin
  rwa [List.length_map, List.length_range] at this

end Directory.Chain

namespace Browser

variable {σ : Type} [Stream σ]

/-- The answers of `n` calls of `next`. -/
def nexts : Nat → FileM (Browser σ) (List (Option Directory))
  | 0 => return []
  | n + 1 => do
    let d ← next
    return d :: (← nexts n)

/-- Called again and again, `next` answers the directories `ds`, then none, and the walk has stopped
for `reason`. -/
def Walks (b : Browser σ) (ds : List Directory) (reason : StopReason) : Prop :=
  Yields (nexts (ds.length + 1)) b fun answers b' =>
    answers = ds.map some ++ [none] ∧ b'.stop = some reason

instance (b : Browser σ) (ds : List Directory) (reason : StopReason) :
    Decidable (b.Walks ds reason) :=
  inferInstanceAs (Decidable (Yields _ _ _))

/-- The walk comes to the end of a chain with these offsets, when the offsets of `visited` were
visited before and the first of the chain is met at `place`: it passes over a first part that stands
in `visited` from that place on, and meets only offsets that were not visited from then on. -/
def Walkable (visited : List Nat) (place : Option Nat) (offsets : List Nat) : Prop :=
  ∃ known new, offsets = known ++ new ∧ (∀ o ∈ new, o ∉ visited) ∧
    (known = [] ∨ ∃ i, place = some i ∧ known <+: visited.drop i)

/-- A chain that has ended is walkable, whatever was visited. -/
theorem walkable_nil (visited : List Nat) (place : Option Nat) : Walkable visited place [] :=
  ⟨[], [], rfl, nofun, .inl rfl⟩

/-- An offset that stands where the walk has come to is walked again. -/
theorem walkable_cons_known {visited : List Nat} {i o : Nat} {os : List Nat}
    (h : visited[i]? = some o) :
    Walkable visited (some i) (o :: os) ↔ Walkable visited (some (i + 1)) os := by
  have hd : visited.drop i = o :: visited.drop (i + 1) := by
    obtain ⟨hi, rfl⟩ := List.getElem?_eq_some_iff.1 h
    exact List.drop_eq_getElem_cons hi
  constructor
  · rintro ⟨known, new, he, hnew, hk⟩
    cases known with
    | nil =>
      cases he
      exact absurd (List.mem_of_getElem? h) (hnew o (.head _))
    | cons o' known =>
      cases he
      rcases hk with hk | ⟨_, hp, hk⟩
      · cases hk
      · cases hp
        rw [hd, List.cons_prefix_cons] at hk
        exact ⟨known, new, rfl, hnew, .inr ⟨_, rfl, hk.2⟩⟩
  · rintro ⟨known, new, rfl, hnew, hk⟩
    refine ⟨o :: known, new, rfl, hnew, .inr ⟨i, rfl, ?_⟩⟩
    rw [hd, List.cons_prefix_cons]
    refine ⟨rfl, ?_⟩
    rcases hk with rfl | ⟨_, hp, hk⟩
    · exact List.nil_prefix
    · cases hp
      exact hk

/-- An offset that was visited, and does not stand where the walk has come to, ends the walk. -/
theorem not_walkable_cons {visited : List Nat} {place : Option Nat} {o : Nat} {os : List Nat}
    (hk : ¬ ∃ i, place = some i ∧ visited[i]? = some o) (hm : o ∈ visited) :
    ¬ Walkable visited place (o :: os) := by
  rintro ⟨known, new, he, hnew, hp⟩
  cases known with
  | nil =>
    cases he
    exact hnew o (.head _) hm
  | cons _ known =>
    cases he
    rcases hp with hp | ⟨i, rfl, hp⟩
    · cases hp
    · refine hk ⟨i, rfl, ?_⟩
      obtain ⟨rest, hr⟩ := hp
      rw [← List.head?_drop, ← hr]
      rfl

/-- A new one is recorded at the end, and has its place there. -/
theorem walkable_cons_new {visited : List Nat} {place : Option Nat} {o : Nat} {os : List Nat}
    (hm : o ∉ visited) (hos : o ∉ os) :
    Walkable visited place (o :: os) ↔
      Walkable (visited ++ [o]) (place.map fun _ => visited.length + 1) os := by
  constructor
  · rintro ⟨known, new, he, hnew, hp⟩
    cases known with
    | nil =>
      cases he
      refine ⟨[], os, rfl, fun o' ho' hv => ?_, .inl rfl⟩
      rcases List.mem_append.1 hv with hv | hv
      · exact hnew o' (.tail _ ho') hv
      · cases List.mem_singleton.1 hv
        exact hos ho'
    | cons _ known =>
      cases he
      rcases hp with hp | ⟨i, _, hp⟩
      · cases hp
      · exact absurd (List.mem_of_mem_drop (hp.subset (.head _))) hm
  · rintro ⟨known, new, rfl, hnew, hp⟩
    have hknown : known = [] := by
      rcases hp with hp | ⟨i, hi, hp⟩
      · exact hp
      · obtain ⟨_, -, rfl⟩ := Option.map_eq_some_iff.1 hi
        rw [List.drop_of_length_le (by simp)] at hp
        exact List.prefix_nil.1 hp
    subst hknown
    refine ⟨[], o :: new, rfl, fun o' ho' hv => ?_, .inl rfl⟩
    rcases List.mem_cons.1 ho' with rfl | ho'
    · exact hm hv
    · exact hnew o' ho' (List.mem_append_left _ hv)

/-! ## One step -/

/-- The list of the visited offsets holds each of them once, and the set holds the same offsets. -/
structure Tracks (b : Browser σ) : Prop where
  nodup : b.chain.Nodup
  mem : ∀ offset, offset ∈ b.visited ↔ offset ∈ b.chain
  size : b.visited.size = b.chain.length

section
variable {b : Browser σ} (d : Directory) (offset : Nat) (place : Option Nat)

omit [Stream σ]

/-- A browser that has visited nothing keeps track of it. -/
theorem tracks_new (hchain : b.chain = []) (hvisited : b.visited = {}) : b.Tracks where
  nodup := hchain ▸ .nil
  mem o := by simp [hchain, hvisited]
  size := by simp [hchain, hvisited]

/-- A browser with the same list and the same set keeps track as before, whatever else is changed.
-/
theorem Tracks.of_eq {b' : Browser σ} (h : b.Tracks) (hchain : b'.chain = b.chain)
    (hvisited : b'.visited = b.visited) : b'.Tracks where
  nodup := hchain ▸ h.nodup
  mem o := by rw [hchain, hvisited, h.mem]
  size := by rw [hchain, hvisited, h.size]

/-- An arrival at an offset that was not visited, or at a known place, adds it to both or to none.
-/
theorem Tracks.arrive (h : b.Tracks)
    (hnew : b.isKnown offset place = false → offset ∉ b.visited) :
    (b.arrive d offset place).Tracks := by
  cases hk : b.isKnown offset place with
  | true =>
    rw [Browser.arrive, if_pos hk]
    exact h.of_eq rfl rfl
  | false =>
    have hmem := hnew hk
    rw [Browser.arrive, if_neg (by rw [hk]; decide)]
    refine ⟨?_, fun o => ?_, ?_⟩
    · exact List.nodup_append.2 ⟨h.nodup, by simp, by grind [h.mem offset]⟩
    · rw [Std.TreeSet.mem_insert, Std.compare_eq_iff_eq, h.mem, List.mem_append,
        List.mem_singleton, or_comm, eq_comm]
    · rw [Std.TreeSet.size_insert, if_neg (by rwa [← Std.TreeSet.mem_iff_contains]), h.size,
        List.length_append]
      rfl

/-- Where the list and the set hold the same offsets, the list tells what keeps the walk from an
offset. -/
theorem Tracks.obstacle?_eq (h : b.Tracks) : b.obstacle? offset place =
    if offset = 0 then some .endOfChain
    else if b.isKnown offset place then none
    else if offset ∈ b.chain then some (.cycle offset)
    else if b.options.limits.directories ≤ b.chain.length then some .limit
    else none := by
  simp only [obstacle?, ← Std.TreeSet.mem_iff_contains, h.mem, h.size]

/-- A walk that arrives at a known place records nothing. -/
theorem arrive_chain : (b.arrive d offset place).chain =
    if b.isKnown offset place then b.chain else b.chain ++ [offset] := by
  unfold arrive; split <;> rfl

/-- After a known place comes the next one, after a new offset the end of the list. -/
theorem arrive_successor : (b.arrive d offset place).successor =
    (d.next, place.map fun i => if b.isKnown offset place then i + 1 else b.chain.length + 1) := by
  unfold arrive
  split <;> simp [successor, Option.map_map, Function.comp_def, *]

variable {offset place} in
/-- A place is known if the offset stands there. -/
theorem isKnown_iff : b.isKnown offset place = true ↔
    ∃ i, place = some i ∧ b.chain[i]? = some offset := by
  cases place <;> simp [isKnown]

end

/-- The two browsers read the same file in the same way. -/
structure SameFile (b b' : Browser σ) : Prop where
  header : b'.header = b.header
  options : b'.options = b.options
  catalog : b'.catalog = b.catalog

/-- The directory that a browser parses at an offset of the content. -/
def parseAt (b : Browser σ) (content : ByteArray) : Nat → Except Fault Directory :=
  Directory.parse b.header b.options b.catalog content

omit [Stream σ] in
/-- Of the same file, the same directories are parsed. -/
theorem SameFile.parseAt {b b' : Browser σ} (h : SameFile b b') (content : ByteArray) :
    b'.parseAt content = b.parseAt content := by
  rw [Browser.parseAt, h.header, h.options, h.catalog, Browser.parseAt]

variable {P : σ → Prop} {content : ByteArray} {b : Browser σ}

/-- On a content a browser reads the directory that is parsed there, and changes the stream only. -/
theorem directoryAt_eq (hP : Serves P content) (hb : P b.stream) (offset : Nat) :
    ∃ s, P s ∧ directoryAt offset b = answer { b with stream := s } (b.parseAt content offset) := by
  obtain ⟨s, hs, hr⟩ := Directory.read_gives hP b.header b.options b.catalog offset b.stream hb
  refine ⟨s, hs, ?_⟩
  rw [directoryAt, onStream, hr, parseAt]
  cases Directory.parse b.header b.options b.catalog content offset <;> rfl

omit [Stream σ] in
/-- An offset that is not held up at an unknown place was not visited. -/
theorem not_visited_of_obstacle {offset : Nat} {place : Option Nat}
    (ho : b.obstacle? offset place = none) (hk : b.isKnown offset place = false) :
    offset ∉ b.visited := by
  intro hm
  rw [obstacle?, hk, Std.TreeSet.contains_iff_mem.2 hm] at ho
  split at ho <;> simp at ho

/-- A walk that is not held up reads the directory. -/
theorem next_reads (hstop : b.stop = none) {offset : Nat} {place : Option Nat}
    (hs : b.successor = (offset, place)) (ho : b.obstacle? offset place = none) :
    next b = match directoryAt offset b with
      | .error fault b => .error fault { b with started := true, stop := some .malformed }
      | .ok d b => .ok (some d) (b.arrive d offset place) := by
  rw [next, hstop, hs]
  dsimp only
  rw [ho]
  rfl

/-- A directory that the walk has read is the current one. -/
theorem next_eq (hP : Serves P content) (hb : P b.stream) (hstop : b.stop = none) {offset : Nat}
    {place : Option Nat} (hs : b.successor = (offset, place))
    (ho : b.obstacle? offset place = none) {d : Directory}
    (hd : b.parseAt content offset = .ok d) :
    ∃ b', next b = .ok (some d) b' ∧ P b'.stream ∧ SameFile b b' ∧ b'.stop = none ∧
      (b.Tracks → b'.Tracks) ∧
      b'.chain = (if b.isKnown offset place then b.chain else b.chain ++ [offset]) ∧
      b'.successor = (d.next,
        place.map fun i => if b.isKnown offset place then i + 1 else b.chain.length + 1) := by
  obtain ⟨s, hs', hr⟩ := directoryAt_eq hP hb offset
  refine ⟨({ b with stream := s }).arrive d offset place, ?_, ?_, ?_, ?_, ?_, arrive_chain _ _ _,
    arrive_successor _ _ _⟩
  · rw [next_reads hstop hs ho, hr, hd, answer_ok]
  rotate_right
  · exact fun h => Tracks.arrive _ _ _ (h.of_eq rfl rfl) (not_visited_of_obstacle ho)
  all_goals unfold arrive; split
  · exact hs'
  · exact hs'
  · exact ⟨rfl, rfl, rfl⟩
  · exact ⟨rfl, rfl, rfl⟩
  · exact hstop
  · exact hstop

/-- A walk that is held up stops for the reason. -/
theorem next_stop (hstop : b.stop = none) {offset : Nat} {place : Option Nat}
    (hs : b.successor = (offset, place)) {reason : StopReason}
    (ho : b.obstacle? offset place = some reason) :
    next b = .ok none { b with started := true, stop := some reason } := by
  simp only [next, hstop, hs, ho, Option.isSome_none, Bool.false_eq_true, if_false]

/-- A step to a directory and a walk from there are a walk. -/
theorem Walks.cons {d : Directory} {ds : List Directory} {reason : StopReason} {b' : Browser σ}
    (h : next b = .ok (some d) b') (hw : b'.Walks ds reason) : b.Walks (d :: ds) reason := by
  obtain ⟨_, b'', hn, rfl, hr⟩ := hw
  refine ⟨_, b'', ?_, rfl, hr⟩
  rw [List.length_cons, nexts, bind_of_ok h, bind_of_ok hn]
  rfl

/-- A step that finds none is a walk over none, with the reason of the step. -/
theorem walks_nil {reason : StopReason} {b' : Browser σ} (h : next b = .ok none b')
    (hr : b'.stop = some reason) : b.Walks [] reason :=
  ⟨_, b', by rw [List.length_nil, nexts, bind_of_ok h]; rfl, rfl, hr⟩

/-! ## The whole walk -/

/-- What `next`, called again and again, answers along a chain that ends: the directories of the
chain, all of them exactly if the chain is walkable. Otherwise the walk takes one of them for the
beginning of a cycle. -/
theorem walk_chain (hP : Serves P content) {offset : Nat} {place : Option Nat}
    {ds : List Directory} (hb : P b.stream) (ht : b.Tracks) (hstop : b.stop = none)
    (hs : b.successor = (offset, place)) (hc : Directory.Chain (b.parseAt content) offset ds)
    (hroom : b.chain.length + ((ds.map (·.offset)).filter (· ∉ b.chain)).length
      ≤ b.options.limits.directories) :
    ∃ k ≤ ds.length, (k = ds.length ↔ Walkable b.chain place (ds.map (·.offset))) ∧
      b.Walks (ds.take k)
        (match ds[k]? with | none => .endOfChain | some d => .cycle d.offset) := by
  induction ds generalizing b offset place with
  | nil =>
    have ho : b.obstacle? offset place = some .endOfChain := if_pos hc
    exact ⟨0, Nat.le_refl _, ⟨fun _ => walkable_nil _ _, fun _ => rfl⟩,
      walks_nil (next_stop hstop hs ho) rfl⟩
  | cons d ds ih =>
    obtain ⟨h0, hd, hn⟩ := hc
    have hoff : d.offset = offset := Directory.offset_of_parse hd
    have hnd := Directory.Chain.nodup (fun h => Directory.offset_of_parse h)
      (show Directory.Chain (b.parseAt content) offset (d :: ds) from ⟨h0, hd, hn⟩)
    rw [List.map_cons, List.nodup_cons, hoff] at hnd
    rw [List.map_cons, hoff] at hroom ⊢
    by_cases hk : ∃ i, place = some i ∧ b.chain[i]? = some offset
    · -- the walk has been at this place: nothing is recorded
      have hknown := isKnown_iff.2 hk
      have ho : b.obstacle? offset place = none := by
        rw [obstacle?, if_neg h0, if_pos hknown]
      obtain ⟨b', hnext, hb', hf, hst, ht', hch, hsu⟩ := next_eq hP hb hstop hs ho hd
      rw [if_pos hknown] at hch
      simp only [if_pos hknown] at hsu
      obtain ⟨i, rfl, hi⟩ := hk
      rw [List.filter_cons_of_neg (by simpa using List.mem_of_getElem? hi)] at hroom
      rw [← hf.parseAt] at hn
      rw [← hf.options, ← hch] at hroom
      obtain ⟨k, hle, hiff, hw⟩ := ih hb' (ht' ht) hst hsu hn hroom
      refine ⟨k + 1, Nat.succ_le_succ hle, ?_, hw.cons hnext⟩
      rw [walkable_cons_known hi, ← hch, List.length_cons, Nat.add_right_cancel_iff]
      exact hiff
    · have hknown : ¬ b.isKnown offset place = true := fun h => hk (isKnown_iff.1 h)
      by_cases hm : offset ∈ b.chain
      · have ho : b.obstacle? offset place = some (.cycle offset) := by
          rw [ht.obstacle?_eq, if_neg h0, if_neg hknown, if_pos hm]
        refine ⟨0, Nat.zero_le _, ⟨nofun, fun h => absurd h (not_walkable_cons hk hm)⟩, ?_⟩
        exact walks_nil (next_stop hstop hs ho) (congrArg (some ∘ StopReason.cycle) hoff.symm)
      · -- the offset is met for the first time: it is recorded at the end of the list
        rw [List.filter_cons_of_pos (by simpa using hm), List.length_cons] at hroom
        have ho : b.obstacle? offset place = none := by
          rw [ht.obstacle?_eq, if_neg h0, if_neg hknown, if_neg hm, if_neg (by omega)]
        obtain ⟨b', hnext, hb', hf, hst, ht', hch, hsu⟩ := next_eq hP hb hstop hs ho hd
        rw [if_neg hknown] at hch
        simp only [if_neg hknown] at hsu
        have hfilter : (ds.map (·.offset)).filter (· ∉ b'.chain)
            = (ds.map (·.offset)).filter (· ∉ b.chain) := by
          refine List.filter_congr fun o ho' => ?_
          have : o ≠ offset := fun he => hnd.1 (he ▸ ho')
          simp [hch, this]
        have hroom' : b'.chain.length + ((ds.map (·.offset)).filter (· ∉ b'.chain)).length
            ≤ b'.options.limits.directories := by
          rw [hfilter, hch, hf.options, List.length_append, List.length_singleton]
          omega
        rw [← hf.parseAt] at hn
        obtain ⟨k, hle, hiff, hw⟩ := ih hb' (ht' ht) hst hsu hn hroom'
        refine ⟨k + 1, Nat.succ_le_succ hle, ?_, hw.cons hnext⟩
        rw [walkable_cons_new hm hnd.1, ← hch, List.length_cons, Nat.add_right_cancel_iff]
        exact hiff

/-- The walk from the start along a chain that ends comes to its end. -/
theorem walks_of_chain (hP : Serves P content) (hb : P b.stream) (hstop : b.stop = none)
    (hchain : b.chain = []) (hvisited : b.visited = {}) (hstart : b.started = false)
    {ds : List Directory} (hc : Directory.Chain (b.parseAt content) b.header.first ds)
    (hroom : ds.length ≤ b.options.limits.directories) : b.Walks ds .endOfChain := by
  have hs : b.successor = (b.header.first, some 0) := by
    rw [successor, hstart]
    rfl
  obtain ⟨k, -, hk, hw⟩ := walk_chain hP hb (tracks_new hchain hvisited) hstop hs hc (by
    rw [hchain, List.length_nil, Nat.zero_add]
    exact Nat.le_trans (List.length_filter_le _ _) (by rwa [List.length_map]))
  rw [hchain] at hk
  have hall : k = ds.length := hk.2 ⟨[], ds.map (·.offset), rfl, nofun, .inl rfl⟩
  rwa [hall, List.take_length, List.getElem?_eq_none (Nat.le_refl _)] at hw

/-! ## Counting -/

section
variable {visited : List Nat} {offset n : Nat}

/-- A count stops where the chain ends, or where it comes back to an offset. -/
theorem countFrom_of_stop (h : offset = 0 ∨ offset ∈ visited) :
    countFrom visited offset (n + 1) b = .ok visited.length b := by
  rw [countFrom, if_pos h]
  rfl

/-- A count goes on from the next offset, if it is found. -/
theorem countFrom_of_ok (h : ¬ (offset = 0 ∨ offset ∈ visited)) {next : Nat} {s : σ}
    (hn : nextOffset b.header offset b.stream = .ok next s) :
    countFrom visited offset (n + 1) b =
      countFrom (offset :: visited) next n { b with stream := s } := by
  have hpeek : (onStream (nextOffset b.header offset)).attempt b =
      .ok (.ok next) { b with stream := s } :=
    attempt_eq (r := .ok next) (by rw [onStream, hn]; rfl)
  rw [countFrom, if_neg h, get_bind, bind_of_ok hpeek]

/-- A directory after which no offset is found is the last that is counted, unless the program
stops there. -/
theorem countFrom_of_error (h : ¬ (offset = 0 ∨ offset ∈ visited)) {fault : Fault} {s : σ}
    (hn : nextOffset b.header offset b.stream = .error fault s) :
    countFrom visited offset (n + 1) b =
      if fault.stops then .error fault { b with stream := s }
      else .ok (visited.length + 1) { b with stream := s } := by
  have hpeek : (onStream (nextOffset b.header offset)).attempt b =
      answer { b with stream := s } (caught (.error fault)) :=
    attempt_eq (r := .error fault) (by rw [onStream, hn]; rfl)
  rw [countFrom, if_neg h, get_bind]
  cases hstops : fault.stops with
  | true =>
    rw [caught_of_stops hstops] at hpeek
    exact bind_of_error hpeek
  | false =>
    rw [caught_of_not_stops hstops] at hpeek
    exact bind_of_ok hpeek

end

end Browser

end TaggedImage
