import TaggedImage.Proofs.Jumps
import TaggedImage.Report

/-!
# Bounds of a report

A report follows offsets that the file gives and keeps no record of where it was below the chain.
It is finite all the same, on any file: every sub-directory it lists was entered with a jump of its
own, and the first that cannot be entered ends the list of its field (`Report.bounded_ofBrowser`).
The looks that make up a report are related to the jumps that they make by `Report.Charges`, which
is closed under bind.

The directories of the chain are those that the walk records at the end of the list of visited
offsets (`Browser.AtEnd.next`), one for each step. `Report.stopText_ofBrowser` says where the report
calls that the end of the chain: also where it lists as many directories as were asked for, as the
walk is not asked then whether it goes on (`Report.cut_says_endOfChain`).
-/

namespace TaggedImage

open FileM

variable {σ α β : Type}

/-! ## Measures of a report -/

mutual

/-- The number of sub-directories in the report on a directory, at all depths. -/
def DirectoryReport.subCount : DirectoryReport → Nat
  | .mk _ _ _ _ _ subDirectories _ => SubDirectoryReport.countAll subDirectories

/-- The number of sub-directories in a list, at all depths. -/
def SubDirectoryReport.countAll : List SubDirectoryReport → Nat
  | [] => 0
  | .mk _ _ directory :: rest => directory.subCount + 1 + SubDirectoryReport.countAll rest

end

mutual

/-- The number of levels of sub-directories in the report on a directory. -/
def DirectoryReport.nesting : DirectoryReport → Nat
  | .mk _ _ _ _ _ subDirectories _ => SubDirectoryReport.nestingAll subDirectories

/-- The number of levels of the sub-directories in a list. -/
def SubDirectoryReport.nestingAll : List SubDirectoryReport → Nat
  | [] => 0
  | .mk _ _ directory :: rest =>
    max (directory.nesting + 1) (SubDirectoryReport.nestingAll rest)

end

/-- The number of sub-directories in the reports on some directories, at all depths. -/
def DirectoryReport.subCountAll : List DirectoryReport → Nat
  | [] => 0
  | d :: ds => d.subCount + DirectoryReport.subCountAll ds

/-- The place in the chain. -/
def DirectoryReport.index : DirectoryReport → Option Nat
  | .mk index _ _ _ _ _ _ => index

/-- The offset of the next directory. -/
def DirectoryReport.next : DirectoryReport → Nat
  | .mk _ _ next _ _ _ _ => next

namespace SubDirectoryReport

/-- There are no sub-directories in an empty list. -/
@[simp] theorem countAll_nil : countAll [] = 0 := rfl

/-- There is no nesting in an empty list. -/
@[simp] theorem nestingAll_nil : nestingAll [] = 0 := rfl

/-- The sub-directories of two lists add up. -/
@[simp] theorem countAll_append (subs rest : List SubDirectoryReport) :
    countAll (subs ++ rest) = countAll subs + countAll rest := by
  induction subs with
  | nil => simp
  | cons sub subs ih =>
    cases sub with
    | mk via position directory => simp [countAll, ih, Nat.add_assoc]

/-- The nesting of two lists is that of the deeper one. -/
@[simp] theorem nestingAll_append (subs rest : List SubDirectoryReport) :
    nestingAll (subs ++ rest) = max (nestingAll subs) (nestingAll rest) := by
  induction subs with
  | nil => simp
  | cons sub subs ih =>
    cases sub with
    | mk via position directory => simp [nestingAll, ih, Nat.max_assoc]

end SubDirectoryReport

/-! ## Jumps -/

namespace Browser

/-- The second browser is the first after `n` jumps more, which leave the place alone and stay
within the limit. -/
structure Spends (n : Nat) (b b' : Browser σ) : Prop where
  aside : ∃ stream catalog,
    b' = { b with stream := stream, catalog := catalog, jumps := b.jumps + n }
  bound : b.jumps ≤ b.options.maxJumps → b.jumps + n ≤ b.options.maxJumps

variable {b b' b'' : Browser σ} {n m : Nat}

/-- Nothing done spends no jumps. -/
theorem Spends.refl (b : Browser σ) : Spends 0 b b := ⟨⟨b.stream, b.catalog, rfl⟩, id⟩

/-- The jumps of two parts add up. -/
theorem Spends.trans (h : Spends n b b') (h' : Spends m b' b'') : Spends (n + m) b b'' := by
  obtain ⟨⟨stream, catalog, rfl⟩, hn⟩ := h
  obtain ⟨⟨stream', catalog', rfl⟩, hm⟩ := h'
  refine ⟨⟨stream', catalog', by rw [Nat.add_assoc]⟩, fun hb => ?_⟩
  rw [← Nat.add_assoc]
  exact hm (hn hb)

variable [Stream σ]

/-- A call that only reads spends no jumps. -/
theorem Call.spends_of_isRead {call : Call} (h : call.isRead) : Spends 0 b (leaves call.run b) := by
  obtain ⟨stream, hleaves⟩ := Call.run_read (b := b) h
  rw [hleaves]
  exact ⟨⟨stream, b.catalog, rfl⟩, id⟩

/-- A descent that comes to a directory makes one jump, and one that fails at most one. -/
theorem enter_spends (e : Entry) (index : Nat) :
    Ends (enter e index) b (fun _ b' => Spends 1 b b') fun _ b' => ∃ n, Spends n b b' := by
  obtain ⟨stream, catalog, jumps, hquiet⟩ := (Call.enter e index).run_quiet (b := b) rfl
  replace hquiet := (leaves_return (enter e index) Answer.directory).symm.trans hquiet
  cases hsub : e.isSubDirectory with
  | false => exact .of_error (enter_of_not_isSubDirectory hsub index) ⟨0, .refl b⟩
  | true =>
    have hcharged := enter_charged (b := b) hsub index
    cases hr : enter e index b with
    | error fault b' =>
      rw [hr] at hcharged
      cases hcharged with
      | refused => exact .of_error hr ⟨0, .refl b⟩
      | failed hj => exact .of_error hr ⟨1, ⟨_, b.catalog, rfl⟩, fun _ => hj⟩
    | ok d b' =>
      rw [hr] at hcharged
      rw [leaves_of_ok hr] at hquiet
      subst hquiet
      cases hcharged with
      | made hj hmade => exact .of_ok hr ⟨⟨stream, catalog, congrArg _ hmade⟩, fun _ => hj⟩

end Browser

namespace Report

open Browser

/-- In the browsers of `P` an attempt at a call that a report makes raises a fault of `F` at most,
and it leaves such a browser. -/
structure Raises [Stream σ] (P : Browser σ → Prop) (F : Fault → Prop) : Prop where
  value : ∀ e, Confined P F (readValue e).attempt fun _ => True
  layout : ∀ d, Confined P F (layoutOf d).attempt fun _ => True
  enter : ∀ e index, Confined P F (enter e index).attempt fun _ => True
  next : Confined P F next.attempt fun _ => True

/-- Whatever the stream does, no more is raised than what stops the program. -/
theorem raises_stops [Stream σ] : Raises (σ := σ) (fun _ => True) (·.stops = true) where
  value _ := confined_attempt _
  layout _ := confined_attempt _
  enter _ _ := confined_attempt _
  next := confined_attempt _

/-- On a content that ends eight bytes before the last word nothing is raised. -/
theorem raises_nothing [Stream σ] {S : σ → Prop} {content : ByteArray} {header : Header}
    {options : Options} (hS : Serves S content) (hsize : content.size + 8 ≤ Word.max) :
    Raises (Intact S header options) fun _ => False := by
  have hcaught {γ : Type} {Q : γ → Prop} {call : FileM (Browser σ) γ}
      (h : Confined (Intact S header options) (Fault.IsOwn content) call Q) :
      Confined (Intact S header options) (fun _ => False) call.attempt fun _ => True :=
    (h.mono (fun _ => id) fun _ hf => hf.not_stops hsize).attempt_caught.mono (fun _ _ => trivial)
      fun _ => id
  exact ⟨fun e => hcaught (readValue_confined hS e), fun d => hcaught (layoutOf_confined hS d),
    fun e index => hcaught (enter_confined hS e index), hcaught (next_confined hS)⟩

/-- From every browser of `P` the look makes as many jumps as goes with its answer and leaves a
browser of `P`, or it raises a fault of `F`. -/
def Charges (P : Browser σ → Prop) (F : Fault → Prop) (Q : α → Nat → Prop) (look : Look σ α) :
    Prop :=
  ∀ b, P b →
    Ends look b (fun a b' => P b' ∧ ∃ n, Spends n b b' ∧ Q a n) fun fault _ => F fault

section
variable {P : Browser σ → Prop} {F : Fault → Prop} {Q Q' Q'' : α → Nat → Prop}
  {R : β → Nat → Prop}

/-- What is returned at once must be paid for by no jumps. -/
theorem charges_pure {a : α} (h : Q a 0) : Charges P F Q (pure a : Look σ α) :=
  fun b hb => ⟨hb, 0, .refl b, h⟩

/-- The jumps of two looks add up. -/
theorem Charges.bind {x : Look σ α} {f : α → Look σ β} (hx : Charges P F Q x)
    (hf : ∀ a n, Q a n → Charges P F (fun c m => R c (n + m)) (f a)) :
    Charges P F R (x >>= f) := by
  intro b hb
  refine (hx b hb).bind fun a b₁ ⟨hb₁, n, hn, ha⟩ => (hf a n ha b₁ hb₁).mono ?_ fun _ _ => id
  exact fun c b₂ ⟨hb₂, m, hm, hc⟩ => ⟨hb₂, n + m, hn.trans hm, hc⟩

/-- A look at the browser is free. -/
theorem charges_get {f : Browser σ → Look σ β} (hf : ∀ b, Charges P F R (f b)) :
    Charges P F R (get >>= f) := fun b hb => hf b b hb

/-- What follows from what is known of a look and its jumps is known of it, too. -/
theorem Charges.mono {x : Look σ α} (hx : Charges P F Q x) (h : ∀ a n, Q a n → Q' a n) :
    Charges P F Q' x :=
  fun b hb => (hx b hb).mono (fun a _ ⟨hb', n, hn, ha⟩ => ⟨hb', n, hn, h a n ha⟩) fun _ _ => id

/-- An attempt makes the jumps that the call makes. -/
theorem charges_attempt {Q : Except Fault α → Nat → Prop} {x : FileM (Browser σ) α}
    (hx : Confined P F x.attempt fun _ => True)
    (hspends : ∀ b r b', x b = answer b' r → ∃ n, Spends n b b' ∧ Q r n) :
    Charges P F Q x.attempt :=
  fun b hb => ((hx b hb).and (ends_attempt_answer x b)).mono
    (fun r b' ⟨⟨hb', _⟩, hr⟩ => ⟨hb', hspends b r b' hr⟩) fun _ _ he => he.1.2

end

section
variable [Stream σ] {P : Browser σ → Prop} {F : Fault → Prop} {options : ReportOptions}
  {depth : Nat} {report : Directory → Look σ DirectoryReport}

/-- An attempt at a call that only reads makes no jump. -/
theorem charges_attempt_of_isRead {x : FileM (Browser σ) α} (call : Call) (hc : call.isRead)
    (hleaves : ∀ b, leaves call.run b = leaves x b)
    (hx : Confined P F x.attempt fun _ => True) :
    Charges P F (fun _ _ => True) x.attempt := by
  refine charges_attempt hx fun b r b' hr => ⟨0, ?_, trivial⟩
  rw [← leaves_of_answer hr, ← hleaves]
  exact call.spends_of_isRead hc

/-- To show a value raises no fault but one that stops the program; a fault of the value is listed.
-/
theorem charges_valueText (h : Raises P F) (e : Entry) :
    Charges P F (fun _ _ => True) (valueText options e : Look σ _) := by
  unfold valueText
  split
  · refine (charges_attempt_of_isRead (.value e) rfl (fun b => leaves_return _ _)
      (h.value e)).bind fun found n _ => ?_
    cases found with
    | ok value => exact charges_pure trivial
    | error fault => exact charges_pure trivial
  · exact charges_pure trivial

/-- To report the fields of a directory raises no fault but one that stops the program, and leaves
the walk alone; faults of values are listed. -/
theorem charges_fieldReports (h : Raises P F) (es : List Entry) :
    Charges P F (fun _ _ => True) (fieldReports options es : Look σ _) := by
  induction es with
  | nil => exact charges_pure trivial
  | cons e es ih =>
    refine (charges_valueText h e).bind fun (value, errors) _ _ => charges_get fun b => ?_
    exact ih.bind fun (fields, more) _ _ => charges_pure trivial

/-- To report the units of a directory raises no fault but one that stops the program; that its
layout is refused is listed. -/
theorem charges_directoryUnits (h : Raises P F) (d : Directory) :
    Charges P F (fun _ _ => True) (directoryUnits d : Look σ _) := by
  unfold directoryUnits
  split
  · refine (charges_attempt_of_isRead (.layoutOf d) rfl (fun b => leaves_return _ _)
      (h.layout d)).bind fun found n _ => ?_
    cases found.bind unitReport with
    | ok units => exact charges_pure trivial
    | error fault => exact charges_pure trivial
  · exact charges_pure trivial

/-- The report on a directory lists no more sub-directories than jumps were made for it, and nests
them no deeper than this. -/
def Within (depth : Nat) (r : DirectoryReport) (n : Nat) : Prop :=
  r.subCount ≤ n ∧ r.nesting ≤ depth

/-- A list of sub-directories that is no longer than the jumps that were made for it, and no deeper
than this. -/
def Entered (depth : Nat) (subs : List SubDirectoryReport × List String) (n : Nat) : Prop :=
  SubDirectoryReport.countAll subs.1 ≤ n ∧ SubDirectoryReport.nestingAll subs.1 ≤ depth

/-- The sub-directories of a field are entered with a jump each, from the first on, until one cannot
be entered. -/
theorem charges_entryChildren (h : Raises P F)
    (hreport : ∀ d, Charges P F (Within depth) (report d)) (via : String) (e : Entry)
    (position n : Nat) :
    Charges P F (Entered (depth + 1)) (entryChildren report via e position n) := by
  induction n generalizing position with
  | zero => exact charges_pure ⟨Nat.le_refl 0, Nat.zero_le _⟩
  | succ n ih =>
    have henter : Charges P F (fun found n => ∀ d, found = .ok d → n = 1)
        (enter e position).attempt := by
      refine charges_attempt (h.enter e position) fun b r b' hr => ?_
      have hspends := enter_spends (b := b) e position
      cases r with
      | ok d => exact ⟨1, hspends.ok hr, fun _ _ => rfl⟩
      | error fault =>
        obtain ⟨n, hn⟩ := hspends.error hr
        exact ⟨n, hn, nofun⟩
    refine henter.bind fun found k hk => ?_
    cases found with
    | error fault => exact charges_pure ⟨Nat.zero_le _, Nat.zero_le _⟩
    | ok child =>
      obtain rfl := hk child rfl
      refine (hreport child).bind fun directory m hm => (ih _).bind fun (rest, errors) l hl => ?_
      refine charges_pure ⟨?_, ?_⟩
      · have hdirectory : directory.subCount ≤ m := hm.1
        have hrest : SubDirectoryReport.countAll rest ≤ l := hl.1
        simp only [SubDirectoryReport.countAll]
        omega
      · exact Nat.max_le.2 ⟨Nat.succ_le_succ hm.2, hl.2⟩

/-- The sub-directories of several fields are entered with a jump each. -/
theorem charges_children (h : Raises P F) (hreport : ∀ d, Charges P F (Within depth) (report d))
    (es : List Entry) : Charges P F (Entered (depth + 1)) (children report es) := by
  induction es with
  | nil => exact charges_pure ⟨Nat.le_refl 0, Nat.zero_le _⟩
  | cons e es ih =>
    refine charges_get fun b => ?_
    refine (charges_entryChildren h hreport _ e 0 e.count).bind fun (first, errors) n hn => ?_
    refine ih.bind fun (rest, more) m hm => charges_pure ⟨?_, ?_⟩
    · rw [SubDirectoryReport.countAll_append]
      exact Nat.add_le_add hn.1 hm.1
    · rw [SubDirectoryReport.nestingAll_append]
      exact Nat.max_le.2 ⟨hn.2, hm.2⟩

/-- The sub-directories of a directory, followed `depth` levels down, and what went wrong. -/
def subReports (options : ReportOptions) (depth : Nat) (d : Directory) :
    Look σ (List SubDirectoryReport × List String) :=
  if options.subDirectories then
    match depth with
    | 0 =>
      if d.subDirectoryEntries.isEmpty then pure ([], [])
      else pure ([], ["sub-directories nested too deeply"])
    | depth + 1 => children (directoryReport options depth none) d.subDirectoryEntries
  else pure ([], [])

/-- A report on a directory is made of its fields, its units and its sub-directories, in this order,
and has the faults of all three. -/
theorem directoryReport_eq (index : Option Nat) (d : Directory) :
    (directoryReport options depth index d : Look σ _) = do
      let (fields, valueErrors) ← fieldReports options d.entries
      let (units, unitErrors) ← directoryUnits d
      let (subs, subErrors) ← subReports options depth d
      return .mk index d.offset d.next fields units subs
        (valueErrors ++ unitErrors ++ subErrors) := by
  unfold directoryReport subReports
  by_cases hsub : options.subDirectories
  · cases depth with
    | zero =>
      simp only [if_pos hsub]
      split <;> rfl
    | succ depth => simp only [if_pos hsub]
  · simp only [if_neg hsub]

/-- The reports below a directory are as deep as there is depth left, if reports of less depth are.
-/
theorem charges_subReports (h : Raises P F)
    (hreport : ∀ k < depth, ∀ d,
      Charges P F (Within k) (directoryReport options k none d : Look σ _)) (d : Directory) :
    Charges P F (Entered depth) (subReports options depth d : Look σ _) := by
  have hnone (errors : List String) : Charges P F (Entered depth)
      (pure ([], errors) : Look σ (List SubDirectoryReport × List String)) :=
    charges_pure ⟨Nat.le_refl 0, Nat.zero_le _⟩
  unfold subReports
  by_cases hsub : options.subDirectories
  · rw [if_pos hsub]
    cases depth with
    | zero =>
      by_cases hempty : d.subDirectoryEntries.isEmpty
      · simpa only [if_pos hempty] using hnone []
      · simpa only [if_neg hempty] using hnone ["sub-directories nested too deeply"]
    | succ depth => exact charges_children h (hreport depth (Nat.lt_succ_self depth)) _
  · rw [if_neg hsub]
    exact hnone []

/-- A report on a directory pays for what is below it, and tells its place and its next offset. -/
theorem charges_of_subReports (h : Raises P F) {d : Directory}
    (hsubs : Charges P F (Entered depth) (subReports options depth d : Look σ _))
    (index : Option Nat) :
    Charges P F (fun r n => Within depth r n ∧ r.index = index ∧ r.next = d.next)
      (directoryReport options depth index d : Look σ _) := by
  rw [directoryReport_eq]
  refine (charges_fieldReports h _).bind fun (fields, valueErrors) n _ => ?_
  refine (charges_directoryUnits h d).bind fun (units, unitErrors) m _ => ?_
  refine hsubs.bind fun (subs, subErrors) l hl => charges_pure ⟨⟨?_, hl.2⟩, rfl, rfl⟩
  exact Nat.le_trans hl.1 (by omega)

/-- The report on a directory lists no more sub-directories than jumps were made, and nests them no
deeper than it is told. -/
theorem charges_directoryReport (h : Raises P F) (options : ReportOptions) (depth : Nat)
    (index : Option Nat) (d : Directory) :
    Charges P F (fun r n => Within depth r n ∧ r.index = index ∧ r.next = d.next)
      (directoryReport options depth index d : Look σ _) := by
  induction depth using Nat.strongRecOn generalizing index d with
  | ind depth ih =>
    refine charges_of_subReports h (charges_subReports h (fun k hk d => ?_) d) index
    exact (ih k hk none d).mono fun r n hr => hr.1

end

end Report

/-! ## The walk along the chain -/

namespace Browser

variable {b b' : Browser σ} {n : Nat}

/-- The walk goes on, and what it comes to next has its place right behind the list of visited
offsets. -/
structure AtEnd (b : Browser σ) : Prop where
  tracks : b.Tracks
  going : b.stop = none
  place : b.successor.2 = some b.chain.length
  room : b.chain.length ≤ b.options.limits.directories

/-- A walk that has not begun is at its end. -/
theorem atEnd_rewound (b : Browser σ) : b.rewound.AtEnd :=
  ⟨tracks_new rfl rfl, rfl, rfl, Nat.zero_le _⟩

/-- Jumps into sub-directories leave the walk at its end. -/
theorem AtEnd.spends (h : b.AtEnd) (hs : Spends n b b') : b'.AtEnd := by
  obtain ⟨⟨stream, catalog, rfl⟩, -⟩ := hs
  exact ⟨h.tracks.of_eq rfl rfl, h.going, h.place, h.room⟩

/-- How a step along the chain ends that is taken at the end of the list: the walk stops, at the end
of the chain only if there is no offset to go to, or the directory it comes to is recorded. -/
inductive WentOn (b : Browser σ) : EStateM.Result Fault (Browser σ) (Option Directory) → Prop
  | stopped {reason b'} (hr : b'.stop = some reason)
      (he : reason = .endOfChain ↔ b.successor.1 = 0) (hj : b'.jumps = b.jumps) :
      WentOn b (.ok none b')
  | failed {fault b'} (hr : b'.stop = some .malformed) (hne : b.successor.1 ≠ 0)
      (hj : b'.jumps = b.jumps) : WentOn b (.error fault b')
  | arrived {d b'} (hb : b'.AtEnd) (hnext : b'.successor.1 = d.next)
      (hindex : b'.index = some b.chain.length) (hlen : b'.chain.length = b.chain.length + 1)
      (ho : b'.options = b.options) (hj : b'.jumps = b.jumps) : WentOn b (.ok (some d) b')

/-- A walk is at the end of the chain just where no offset follows. -/
theorem obstacle?_eq_endOfChain {offset : Nat} {place : Option Nat} {reason : StopReason}
    (h : b.obstacle? offset place = some reason) : reason = .endOfChain ↔ offset = 0 := by
  unfold obstacle? at h
  split at h
  · next hz =>
    cases h
    exact iff_of_true rfl hz
  · next hz =>
    refine iff_of_false ?_ hz
    rintro rfl
    split at h
    · cases h
    · split at h
      · cases h
      · split at h <;> cases h

/-- From its end, the walk goes on by one new directory, or stops with a reason. -/
theorem AtEnd.next [Stream σ] (h : b.AtEnd) : WentOn b (next b) := by
  have hn := b.next_steps
  have hplace := h.place
  generalize Browser.next b = r at hn
  cases hn with
  | stopped hstop =>
    rw [h.going] at hstop
    cases hstop
  | held _ hs ho =>
    refine .stopped rfl ?_ rfl
    rw [hs]
    exact obstacle?_eq_endOfChain ho
  | failed _ hs ho =>
    refine .failed rfl ?_ rfl
    rw [hs]
    exact (obstacle?_eq_none.1 ho).1
  | @arrived offset place d stream _ hs ho hd =>
    rw [hs] at hplace
    obtain rfl : place = some b.chain.length := hplace
    have hroom : b.chain.length < b.options.limits.directories := by
      rcases (obstacle?_eq_none.1 ho).2 with hknown | ⟨-, -, hlt⟩
      · rw [isKnown_length] at hknown
        cases hknown
      · rwa [h.tracks.size] at hlt
    have htracks := Tracks.arrive (b := { b with stream := stream }) d offset (some b.chain.length)
      (h.tracks.of_eq rfl rfl) (not_visited_of_obstacle ho)
    rw [arrive_new (isKnown_length _ offset)] at htracks ⊢
    have hlen : (b.chain ++ [offset]).length = b.chain.length + 1 := List.length_append
    refine .arrived ⟨htracks, h.going, ?_, ?_⟩ rfl rfl hlen rfl rfl
    · exact congrArg some hlen.symm
    · exact hlen.symm ▸ hroom

end Browser

namespace Report

open Browser

variable [Stream σ] {P : Browser σ → Prop} {F : Fault → Prop} {options : ReportOptions}
  {b b' : Browser σ} {n : Nat}

/-- The offset at which the walk goes on after these directories of the chain, which begins at
`first`. -/
def following (first : Nat) (ds : List DirectoryReport) : Nat :=
  (ds.getLast?.map DirectoryReport.next).getD first

/-- The offset after the directories is that of the last of them. -/
theorem following_cons (first : Nat) (d : DirectoryReport) (ds : List DirectoryReport) :
    following first (d :: ds) = following d.next ds := by
  unfold following
  rw [List.getLast?_cons]
  cases ds.getLast? <;> rfl

/-- What the walk along the chain from `b` to `b'` lists, of at most `n` directories. -/
structure Listed (n : Nat) (b b' : Browser σ) (ds : List DirectoryReport) : Prop where
  length : ds.length ≤ n
  room : b.chain.length + ds.length ≤ b.options.limits.directories
  index : ds.map (·.index) = (List.range' b.chain.length ds.length).map some
  nesting : ∀ d ∈ ds, d.nesting ≤ maxDepth
  spent : b.jumps + DirectoryReport.subCountAll ds ≤ b'.jumps
  bound : b.jumps ≤ b.options.maxJumps → b'.jumps ≤ b.options.maxJumps
  stop : ds.length = n ∧ b'.stop = none ∨ ds.length < n ∧ ∃ reason, b'.stop = some reason ∧
    (reason = .endOfChain ↔ following b.successor.1 ds = 0)

omit [Stream σ] in
/-- Where the walk stops nothing more is listed. -/
theorem Listed.nil {reason : StopReason} (hb : b.AtEnd) (hn : 0 < n) (hj : b'.jumps = b.jumps)
    (hstop : b'.stop = some reason) (he : reason = .endOfChain ↔ b.successor.1 = 0) :
    Listed n b b' [] where
  length := Nat.zero_le n
  room := hb.room
  index := rfl
  nesting := nofun
  spent := Nat.le_of_eq hj.symm
  bound h := hj ▸ h
  stop := .inr ⟨hn, reason, hstop, he⟩

omit [Stream σ] in
/-- The report on a directory that the walk comes to is the first in the list. -/
theorem Listed.cons {b₁ b₂ : Browser σ} {d : Directory} {first : DirectoryReport}
    {ds : List DirectoryReport} {k : Nat} (hw : WentOn b (.ok (some d) b₁)) (hk : Spends k b₁ b₂)
    (hwithin : Within maxDepth first k) (hplace : first.index = b₁.index)
    (hafter : first.next = d.next) (h : Listed n b₂ b' ds) :
    Listed (n + 1) b b' (first :: ds) := by
  cases hw with
  | arrived _ hnext hindex hlen ho hj =>
    obtain ⟨⟨stream, catalog, rfl⟩, hlimit⟩ := hk
    obtain ⟨hcount, hnesting⟩ := hwithin
    obtain ⟨hlength, hroom, hindexes, hnestings, hspent, hbound, hstop⟩ := h
    dsimp only [Browser.successor] at hroom hindexes hspent hbound hstop
    refine ⟨Nat.succ_le_succ hlength, ?_, ?_, ?_, ?_, ?_, ?_⟩
    · rw [hlen, ho] at hroom
      simp only [List.length_cons]
      omega
    · rw [hlen] at hindexes
      simp only [List.map_cons, List.length_cons, List.range'_succ, hplace, hindex, hindexes]
    · rintro d' (_ | ⟨_, hd'⟩)
      · exact hnesting
      · exact hnestings d' hd'
    · rw [DirectoryReport.subCountAll]
      omega
    · intro hb
      rw [← ho, ← hj] at hb
      rw [← ho]
      exact hbound (hlimit hb)
    · rw [following_cons, hafter, ← hnext]
      rcases hstop with ⟨hfull, hnone⟩ | ⟨hlt, hreason⟩
      · exact .inl ⟨congrArg _ hfull, hnone⟩
      · exact .inr ⟨Nat.succ_lt_succ hlt, hreason⟩

/-- What is listed of the chain from the end of the list of visited offsets on. -/
theorem listed_chain (h : Raises P F) (hP : P b) (hb : b.AtEnd) (n : Nat) :
    Ends (chain options n) b (fun r b' => Listed n b b' r.1) fun fault _ => F fault := by
  induction n generalizing b with
  | zero => exact ⟨Nat.le_refl 0, hb.room, rfl, nofun, Nat.le_refl _, id, .inl ⟨rfl, hb.going⟩⟩
  | succ n ih =>
    refine Ends.bind_mono ((h.next b hP).and (ends_attempt_answer Browser.next b))
      (fun _ _ he => he.1.2) ?_
    rintro found b' ⟨⟨hP', -⟩, hr⟩
    have hw := hb.next
    rw [hr] at hw
    cases found with
    | error fault =>
      cases hw with
      | failed hstop hne hj => exact .nil hb (Nat.succ_pos n) hj hstop (iff_of_false nofun hne)
    | ok found =>
      cases found with
      | none =>
        cases hw with
        | stopped hstop he hj => exact .nil hb (Nat.succ_pos n) hj hstop he
      | some d =>
        refine ends_get_bind.2 ((charges_directoryReport h options maxDepth b'.index d b' hP').bind
          fun first b₂ ⟨hP₂, k, hk, hwithin, hplace, hafter⟩ => ?_)
        have hb₂ : b₂.AtEnd := by
          cases hw with
          | arrived hb' => exact hb'.spends hk
        exact (ih hP₂ hb₂).bind fun rest _ hrest => .cons hw hk hwithin hplace hafter hrest

/-! ## The report -/

/-- What a report lists of the chain, and why it says that the walk stopped. -/
theorem listed_ofBrowser (h : Raises P F) (options : ReportOptions) (hb : P b.rewound) :
    Ends (ofBrowser options) b
      (fun r b' => Listed options.maxDirectories b.rewound b' r.directories ∧ r.stop = b'.stop)
      fun fault _ => F fault :=
  (listed_chain h hb (atEnd_rewound b) options.maxDirectories).bind fun _ _ hl => ⟨hl, rfl⟩

/-- A report that lists so many directories of the chain at most, which have the first places there
in order, and so many sub-directories in all, nested no deeper than sub-directories are followed. -/
structure Bounded (most jumps : Nat) (r : Report) : Prop where
  length : r.directories.length ≤ most
  index : r.directories.map (·.index) = (List.range r.directories.length).map some
  subCount : DirectoryReport.subCountAll r.directories ≤ jumps
  nesting : ∀ d ∈ r.directories, d.nesting ≤ maxDepth

omit [Stream σ] in
/-- What is listed from the beginning of the chain is bounded. -/
theorem Listed.bounded {r : Report}
    (h : Listed options.maxDirectories b.rewound b' r.directories) :
    Bounded (min options.maxDirectories b.options.limits.directories) b.options.maxJumps r := by
  have hroom := h.room
  have hindex := h.index
  have hspent := h.spent
  have hbound := h.bound (Nat.zero_le _)
  simp only [rewound, List.length_nil, Nat.zero_add, ← List.range_eq_range'] at *
  exact ⟨Nat.le_min.2 ⟨h.length, hroom⟩, hindex, Nat.le_trans hspent hbound, h.nesting⟩

/-- A report is bounded by the options, whatever offsets there are in the file and however often
they lead to the same place, unless the program stops. It does not on a content that ends eight
bytes before the last word: there is always a report then. -/
theorem bounded_ofBrowser (options : ReportOptions) (b : Browser σ) :
    Ends (ofBrowser options) b
      (fun r _ =>
        Bounded (min options.maxDirectories b.options.limits.directories) b.options.maxJumps r)
      (fun fault _ => fault.stops = true) ∧
    ∀ (S : σ → Prop) (content : ByteArray), Serves S content → S b.stream →
      content.size + 8 ≤ Word.max → Yields (ofBrowser options) b fun r _ =>
        Bounded (min options.maxDirectories b.options.limits.directories) b.options.maxJumps r := by
  refine ⟨(listed_ofBrowser raises_stops options trivial).mono (fun _ _ h => h.1.bounded)
    fun _ _ => id, fun S content hS hb hsize => ?_⟩
  have hintact : Intact S b.header b.options b.rewound := ⟨hb, rfl, rfl, nofun⟩
  have hlisted := listed_ofBrowser (raises_nothing hS hsize) options hintact
  cases hr : ofBrowser options b with
  | ok r b' => exact ⟨r, b', hr, (hlisted.ok hr).1.bounded⟩
  | error fault b' => exact (hlisted.error hr).elim

/-- The report on a file with one directory and one sub-directory has both, within the bounds. -/
theorem bounded_ofBrowser_oneDescent :
    ∃ b, Browser.ofStream (Memory.ofBytes oneDescent) { maxJumps := 2 } .standard = .ok b ∧
      Yields (ofBrowser { maxDirectories := 3 }) b (fun r _ =>
        r.directories.length = 1 ∧ DirectoryReport.subCountAll r.directories = 1) ∧
      Yields (ofBrowser { maxDirectories := 3 }) b fun r _ => Bounded 3 2 r := by
  obtain ⟨b, ho, hr, hlimits, hjumps⟩ :
      ∃ b, Browser.ofStream (Memory.ofBytes oneDescent) { maxJumps := 2 } .standard = .ok b ∧
        Yields (ofBrowser { maxDirectories := 3 }) b (fun r _ =>
          r.directories.length = 1 ∧ DirectoryReport.subCountAll r.directories = 1) ∧
        min 3 b.options.limits.directories = 3 ∧ b.options.maxJumps = 2 := by
    decide +kernel
  have hm : (Memory.ofBytes oneDescent).Holds oneDescent := Memory.holds_ofBytes (by decide)
  have hb : b.stream.Holds oneDescent := ofStream_keeps (Memory.serves _) hm ho
  have hbounded := (bounded_ofBrowser { maxDirectories := 3 } b).2 _ _ (Memory.serves _) hb
    (by decide)
  rw [hlimits, hjumps] at hbounded
  exact ⟨b, ho, hr, hbounded⟩

/-- Only the end of the chain has that text, and a walk that has not stopped. -/
theorem stopText_eq_endOfChain {stop : Option StopReason} :
    stopText stop = "end of chain" ↔ stop = none ∨ stop = some .endOfChain := by
  cases stop with
  | none => exact iff_of_true rfl (.inl rfl)
  | some reason =>
    cases reason with
    | endOfChain => exact iff_of_true rfl (.inr rfl)
    | limit => exact iff_of_false (by decide) nofun
    | malformed => exact iff_of_false (by decide) nofun
    | cycle offset =>
      refine iff_of_false (fun h => ?_) (by simp)
      -- The two texts differ in their first letters, whatever the offset.
      have hlist : ("cycle back to offset " ++ toString offset).toList = "end of chain".toList :=
        congrArg String.toList h
      simp at hlist

/-- A report says that the chain has come to its end just where there is no offset to go on to, or
where it lists as many directories as were asked for. -/
theorem stopText_ofBrowser (options : ReportOptions) (b : Browser σ) :
    Ends (ofBrowser options) b
      (fun r _ => stopText r.stop = "end of chain" ↔
        r.directories.length = options.maxDirectories ∨
          following b.header.first r.directories = 0)
      (fun fault _ => fault.stops = true) := by
  refine (listed_ofBrowser raises_stops options trivial).mono ?_ fun _ _ => id
  rintro r b' ⟨h, hstop⟩
  rw [stopText_eq_endOfChain, hstop]
  rcases h.stop with ⟨hfull, hnone⟩ | ⟨hlt, reason, hreason, hend⟩
  · exact iff_of_true (.inl hnone) (.inl hfull)
  · rw [hreason]
    constructor
    · rintro (hnone | hsome)
      · cases hnone
      · exact .inr (hend.1 (Option.some.inj hsome))
    · rintro (hfull | hzero)
      · exact absurd hfull (Nat.ne_of_lt hlt)
      · exact .inr (congrArg some (hend.2 hzero))

/-- A classic file with a chain of two directories, at 8 and at 26. -/
def twoInARow : ByteArray := ⟨#[
  0x49, 0x49, 42, 0, 8, 0, 0, 0,
  1, 0, 0, 1, 3, 0, 1, 0, 0, 0, 100, 0, 0, 0, 26, 0, 0, 0,
  1, 0, 0, 1, 3, 0, 1, 0, 0, 0, 200, 0, 0, 0, 0, 0, 0, 0]⟩

/-- Of two directories one is listed, as it was asked for, and the report calls that the end of the
chain, though the directory listed names the other as its next. -/
theorem cut_says_endOfChain :
    ∃ b, Browser.ofStream (Memory.ofBytes twoInARow) {} .standard = .ok b ∧
      Yields (ofBrowser { maxDirectories := 1 }) b fun r _ =>
        r.directories.length = 1 ∧ following b.header.first r.directories = 26 ∧
          stopText r.stop = "end of chain" := by
  decide +kernel

end Report

end TaggedImage
