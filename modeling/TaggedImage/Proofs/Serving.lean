import TaggedImage.FileAccess

/-!
# Calls on a file whose bytes are known

A stream serves a content in the states of a predicate if every read of a range of the content
gives its bytes and leads to such a state again (`Serves`). On such a stream a call that only reads
is a function of the content: `FileM.Gives` says that a call always ends with the same answer, and
the lemmas here compute that answer step by step. `Ends` says what is left of a call whose answer
depends on more.
-/

namespace TaggedImage

variable {σ α β : Type}

/-- A computation that yields a value has passed through a value of its first part. -/
theorem bind_eq_ok {ε : Type} {x : Except ε α} {f : α → Except ε β} {b : β} :
    x >>= f = .ok b ↔ ∃ a, x = .ok a ∧ f a = .ok b := by
  cases x <;> simp [Bind.bind, Except.bind]

/-- A computation that fails does so in its first part, or in what follows the value of that. -/
theorem bind_eq_error {ε : Type} {x : Except ε α} {f : α → Except ε β} {e : ε} :
    x >>= f = .error e ↔ x = .error e ∨ ∃ a, x = .ok a ∧ f a = .error e := by
  cases x <;> simp [Bind.bind, Except.bind]

/-- What is returned of a value does not fail by itself. -/
theorem map_eq_error {ε : Type} {x : Except ε α} {f : α → β} {e : ε} :
    (do return f (← x)) = .error e ↔ x = .error e := by
  cases x <;> simp [Bind.bind, Except.bind, Pure.pure, Except.pure]

/-- Whether a computation has a given result can be decided if its values can be compared. -/
instance decideEq [DecidableEq α] : DecidableEq (Except Fault α)
  | .ok a, .ok b => decidable_of_iff (a = b) ⟨congrArg _, Except.ok.inj⟩
  | .error e, .error f => decidable_of_iff (e = f) ⟨congrArg _, Except.error.inj⟩
  | .ok _, .error _ | .error _, .ok _ => isFalse nofun

/-- So can whether it has a result with a property that can be decided. -/
instance decideExists (x : Except Fault α) (Q : α → Prop) [∀ a, Decidable (Q a)] :
    Decidable (∃ a, x = .ok a ∧ Q a) :=
  match x with
  | .ok a => decidable_of_iff (Q a) ⟨fun h => ⟨a, rfl, h⟩, fun ⟨_, h, hq⟩ => by cases h; exact hq⟩
  | .error _ => isFalse nofun

/-! ## Steps of a call -/

section
variable {ε : Type} {x : EStateM ε σ α} {f : α → EStateM ε σ β} {s s' : σ}

/-- A call that looks at the state first goes on with the state. -/
theorem get_bind (f : σ → EStateM ε σ β) : (get >>= f) s = f s s := rfl

/-- Nothing of a call is done after a throw. -/
theorem throw_bind (e : ε) (f : α → EStateM ε σ β) : (throw e >>= f) s = .error e s := rfl

/-- A call whose first step has a result is, from there on, what comes after that step. -/
theorem bind_of_ok {a : α} (h : x s = .ok a s') : (x >>= f) s = f a s' := by
  simp only [Bind.bind, EStateM.bind, h]

/-- A call whose first step has an error ends with that error, in the state of the step. -/
theorem bind_of_error {e : ε} (h : x s = .error e s') : (x >>= f) s = .error e s' := by
  simp only [Bind.bind, EStateM.bind, h]

/-- A call that ends with a result has come through its first step. -/
theorem exists_of_bind_ok {b : β} {s'' : σ} (h : (x >>= f) s = .ok b s'') :
    ∃ a s', x s = .ok a s' ∧ f a s' = .ok b s'' := by
  cases hx : x s with
  | ok a s' =>
    rw [bind_of_ok hx] at h
    exact ⟨a, s', rfl, h⟩
  | error e s' =>
    rw [bind_of_error hx] at h
    cases h

/-- From `s` the call ends with a result and a state that satisfy `Q`, or with an error and a state
that satisfy `E`. -/
def Ends (call : EStateM ε σ α) (s : σ) (Q : α → σ → Prop) (E : ε → σ → Prop) : Prop :=
  match call s with
  | .ok a s' => Q a s'
  | .error e s' => E e s'

variable {Q Q' : α → σ → Prop} {R : β → σ → Prop} {E E' : ε → σ → Prop}

/-- A call that returns at once ends with what is returned, and leaves the state alone. -/
@[simp] theorem ends_pure {a : α} : Ends (pure a) s Q E ↔ Q a s := .rfl

/-- A call that throws at once ends with the error, and leaves the state alone. -/
@[simp] theorem ends_throw {e : ε} : Ends (throw e) s Q E ↔ E e s := .rfl

/-- A look at the state leaves the end of a call to what comes after it. -/
@[simp] theorem ends_get_bind {f : σ → EStateM ε σ β} :
    Ends (get >>= f) s R E ↔ Ends (f s) s R E := .rfl

/-- A new state is the one from which the rest of the call ends. -/
@[simp] theorem ends_set_bind {f : PUnit → EStateM ε σ β} :
    Ends (set s' >>= f) s R E ↔ Ends (f ⟨⟩) s' R E := .rfl

/-- A change of the state leads to the one from which the rest of the call ends. -/
@[simp] theorem ends_modify_bind {g : σ → σ} {f : PUnit → EStateM ε σ β} :
    Ends (modify g >>= f) s R E ↔ Ends (f ⟨⟩) (g s) R E := .rfl

/-- A call that is known to have a result ends as it is said of this result. -/
theorem Ends.of_ok {a : α} {t : σ} (h : x s = .ok a t) (hq : Q a t) : Ends x s Q E := by
  rwa [Ends, h]

/-- A call that is known to have an error ends as it is said of this error. -/
theorem Ends.of_error {e : ε} {t : σ} (h : x s = .error e t) (he : E e t) : Ends x s Q E := by
  rwa [Ends, h]

/-- What is said of the end of a call holds of the result it has. -/
theorem Ends.ok {a : α} {t : σ} (hx : Ends x s Q E) (h : x s = .ok a t) : Q a t := by
  rwa [Ends, h] at hx

/-- What is said of the end of a call holds of the error it has. -/
theorem Ends.error {e : ε} {t : σ} (hx : Ends x s Q E) (h : x s = .error e t) : E e t := by
  rwa [Ends, h] at hx

/-- Two calls that do the same in a state end in the same way. -/
theorem Ends.congr {y : EStateM ε σ α} (hx : Ends x s Q E) (h : y s = x s) : Ends y s Q E := by
  rwa [Ends, h]

/-- A call ends as the step after its first one does from any end of the first, if errors of the
first step are said to be errors of the call. -/
theorem Ends.bind (hx : Ends x s Q E) (hf : ∀ a s', Q a s' → Ends (f a) s' R E) :
    Ends (x >>= f) s R E := by
  cases h : x s with
  | ok a t =>
    rw [Ends, bind_of_ok h]
    exact hf a t (hx.ok h)
  | error e t => exact .of_error (bind_of_error h) (hx.error h)

/-- What follows from what is said of a call is said of it, too. -/
theorem Ends.mono (hx : Ends x s Q E) (hq : ∀ a s', Q a s' → Q' a s')
    (he : ∀ e s', E e s' → E' e s') : Ends x s Q' E' := by
  cases h : x s with
  | ok a t => exact .of_ok h (hq _ _ (hx.ok h))
  | error e t => exact .of_error h (he _ _ (hx.error h))

/-- A step whose errors imply those that are stated for the whole call. -/
theorem Ends.bind_mono (hx : Ends x s Q E) (he : ∀ e s', E e s' → E' e s')
    (hf : ∀ a s', Q a s' → Ends (f a) s' R E') : Ends (x >>= f) s R E' :=
  (hx.mono (fun _ _ => id) he).bind hf

/-- What is known of a call in two ways is known of it together. -/
theorem Ends.and (hx : Ends x s Q E) (hx' : Ends x s Q' E') :
    Ends x s (fun a s' => Q a s' ∧ Q' a s') (fun e s' => E e s' ∧ E' e s') := by
  cases h : x s with
  | ok a t => exact .of_ok h ⟨hx.ok h, hx'.ok h⟩
  | error e t => exact .of_error h ⟨hx.error h, hx'.error h⟩

/-- A call that makes another one on a part of its state, and puts the part back, ends as the other
one does. -/
theorem Ends.of_part {τ : Type} {y : EStateM ε τ α} {t : τ} (put : σ → τ) {Q : α → τ → Prop}
    {E : ε → τ → Prop} (hok : ∀ {a s'}, x s = .ok a s' → y t = .ok a (put s'))
    (herror : ∀ {e s'}, x s = .error e s' → y t = .error e (put s'))
    (hx : Ends x s (fun a s' => Q a (put s')) (fun e s' => E e (put s'))) : Ends y t Q E := by
  cases h : x s with
  | ok a s' => exact .of_ok (hok h) (hx.ok h)
  | error e s' => exact .of_error (herror h) (hx.error h)

end

/-! ## What a call keeps -/

section
variable {ε : Type} {x : EStateM ε σ α} {f : α → EStateM ε σ β} {P : σ → Prop}

/-- What holds of the state holds of the state that the call leaves, with or without an error. -/
def Keeps (P : σ → Prop) (x : EStateM ε σ α) : Prop :=
  ∀ s, P s → Ends x s (fun _ s' => P s') (fun _ s' => P s')

/-- A value that is returned keeps the state. -/
theorem keeps_pure (a : α) : Keeps P (pure a : EStateM ε σ α) := fun _ hs => hs

/-- An error that is thrown keeps the state. -/
theorem keeps_throw (e : ε) : Keeps P (throw e : EStateM ε σ α) := fun _ hs => hs

/-- A call keeps what all its steps keep. -/
theorem Keeps.bind (hx : Keeps P x) (hf : ∀ a, Keeps P (f a)) : Keeps P (x >>= f) :=
  fun s hs => (hx s hs).bind fun a s' hs' => hf a s' hs'

/-- A call that looks at the state keeps what it keeps for every state in which this holds. -/
theorem keeps_get_bind {f : σ → EStateM ε σ β} (hf : ∀ s, P s → Keeps P (f s)) :
    Keeps P (get >>= f) :=
  fun s hs => hf s hs s hs

/-- A new state in which something holds keeps it. -/
theorem keeps_set {s : σ} (hs : P s) : Keeps P (set s : EStateM ε σ PUnit) := fun _ _ => hs

/-- A change that keeps something keeps it as a step of a call, too. -/
theorem keeps_modify {g : σ → σ} (hg : ∀ s, P s → P (g s)) :
    Keeps P (modify g : EStateM ε σ PUnit) :=
  hg

/-- A choice between two calls keeps what both keep. -/
theorem Keeps.ite {c : Prop} [Decidable c] {y : EStateM ε σ α} (hx : Keeps P x)
    (hy : Keeps P y) : Keeps P (if c then x else y) := by
  split
  · exact hx
  · exact hy

end

/-! ## Calls that only read -/

/-- In the states of `P` the stream gives out the bytes of `content`, as far as ranges of it are
asked for. Nothing is said of ranges outside. -/
structure Serves [Stream σ] (P : σ → Prop) (content : ByteArray) : Prop where
  size : ∀ {s}, P s → Channel.size s = content.size
  read : ∀ {s} offset len, P s → offset + len ≤ content.size →
    ∃ s', P s' ∧ Stream.readExactAt offset len s = .ok (content.extract offset (offset + len)) s'

/-- In the states of `P` the stream refuses every range outside `content`, which ends at a word, and
goes on. -/
structure Refuses [Stream σ] (P : σ → Prop) (content : ByteArray) : Prop where
  word : ∀ {s}, P s → content.size ≤ Word.max
  read : ∀ {s} offset len, P s → content.size < offset + len →
    ∃ e s', e ≠ .overflow ∧ P s' ∧ Stream.readExactAt offset len s = .error e s'

/-- A refusal of the stream that is no overflow does not stop the program. -/
theorem Fault.stops_stream {e : StreamError} (h : e ≠ .overflow) :
    (Fault.stream e).stops = false := by
  cases e <;> first | rfl | exact absurd rfl h

namespace FileM

/-- The call ends without a fault, and its result and the state it leaves satisfy `Q`. -/
def Yields (call : FileM σ α) (s : σ) (Q : α → σ → Prop) : Prop :=
  ∃ a s', call s = .ok a s' ∧ Q a s'

instance (call : FileM σ α) (s : σ) (Q : α → σ → Prop) [∀ a s', Decidable (Q a s')] :
    Decidable (call.Yields s Q) :=
  match h : call s with
  | .ok a s' =>
    decidable_of_iff (Q a s') ⟨fun hq => ⟨a, s', h, hq⟩, fun ⟨_, _, h', hq⟩ => by
      rw [h] at h'
      cases h'
      exact hq⟩
  | .error _ _ => isFalse fun ⟨_, _, h', _⟩ => by
      rw [h] at h'
      cases h'

/-- The state that a call leaves, with or without a fault. -/
def leaves (call : FileM σ α) (s : σ) : σ :=
  match call s with
  | .ok _ s' => s'
  | .error _ s' => s'

/-- The state that a call with a result leaves. -/
theorem leaves_of_ok {call : FileM σ α} {s s' : σ} {a : α} (h : call s = .ok a s') :
    leaves call s = s' := by
  rw [leaves, h]

/-- The state that a call with a fault leaves. -/
theorem leaves_of_error {call : FileM σ α} {s s' : σ} {fault : Fault}
    (h : call s = .error fault s') : leaves call s = s' := by
  rw [leaves, h]

/-- What is done with the result of a call does not touch the state it leaves. -/
theorem leaves_discard (call : FileM σ α) (s : σ) :
    leaves (call >>= fun _ => pure ⟨⟩ : FileM σ PUnit) s = leaves call s := by
  cases h : call s with
  | ok a s' =>
    rw [leaves_of_ok h]
    exact leaves_of_ok (a := ⟨⟩) (bind_of_ok h)
  | error fault s' => exact (leaves_of_error (bind_of_error h)).trans (leaves_of_error h).symm

/-- What a call with this answer returns when it leaves the state `s`. -/
def answer (s : σ) : Except Fault α → EStateM.Result Fault σ α
  | .ok a => .ok a s
  | .error fault => .error fault s

/-- An answer that is a value is a result. -/
@[simp] theorem answer_ok (s : σ) (a : α) : answer s (.ok a) = .ok a s := rfl

/-- An answer that is a fault is an error. -/
@[simp] theorem answer_error (s : σ) (fault : Fault) :
    answer s (.error fault : Except Fault α) = .error fault s := rfl

/-- Every call has an answer, and leaves a state with it. -/
theorem exists_answer (call : FileM σ α) (s : σ) : ∃ r, call s = answer (leaves call s) r := by
  rw [leaves]
  cases call s with
  | ok a s' => exact ⟨.ok a, rfl⟩
  | error fault s' => exact ⟨.error fault, rfl⟩

/-- The state that a call with this answer leaves. -/
theorem leaves_of_answer {call : FileM σ α} {s s' : σ} {r : Except Fault α}
    (h : call s = answer s' r) : leaves call s = s' := by
  cases r with
  | ok a => exact leaves_of_ok h
  | error fault => exact leaves_of_error h

/-- An answer is a result just if it is a value, and the states are the same. -/
theorem answer_eq_ok {s s' : σ} {r : Except Fault α} {a : α} :
    answer s r = .ok a s' ↔ r = .ok a ∧ s = s' := by
  cases r <;> simp

/-- Answers that are the same are of the same value or fault, and of the same state. -/
theorem answer_inj {s s' : σ} {r r' : Except Fault α} (h : answer s r = answer s' r') :
    r = r' ∧ s = s' := by
  cases r with
  | ok a => exact (answer_eq_ok.1 h.symm).imp Eq.symm Eq.symm
  | error fault => cases r' <;> cases h; exact ⟨rfl, rfl⟩

/-- A check answers itself and leaves the state alone. -/
theorem ofExcept_eq (r : Except Fault α) (s : σ) : FileM.ofExcept r s = answer s r := by
  cases r <;> rfl

/-- A check has a result just if it is passed. -/
theorem ofExcept_eq_ok {r : Except Fault α} {s s' : σ} {a : α} :
    FileM.ofExcept r s = .ok a s' ↔ r = .ok a ∧ s = s' := by
  rw [ofExcept_eq, answer_eq_ok]

/-- What an attempt at a call with this answer answers: the answer itself, as a result, unless it is
a fault that stops the program. -/
def caught : Except Fault α → Except Fault (Except Fault α)
  | .ok a => .ok (.ok a)
  | .error fault => if fault.stops then .error fault else .ok (.error fault)

/-- What is done with the answer of a call is done with the value of that answer. -/
theorem bind_pure_eq {call : FileM σ α} {s s' : σ} {r : Except Fault α} (h : call s = answer s' r)
    (f : α → β) : (do return f (← call) : FileM σ β) s = answer s' (do return f (← r)) := by
  cases r with
  | ok a => exact bind_of_ok h
  | error fault => exact bind_of_error h

/-- An answer that does not stop the program is caught as it is. -/
theorem caught_eq {r : Except Fault α} (h : ∀ fault, r = .error fault → fault.stops = false) :
    caught r = .ok r := by
  cases r with
  | ok a => rfl
  | error fault => rw [caught, h fault rfl, if_neg Bool.false_ne_true]

/-- A fault that stops the program is not caught. -/
theorem caught_of_stops {fault : Fault} (h : fault.stops = true) :
    caught (.error fault : Except Fault α) = .error fault := by
  rw [caught, if_pos h]

/-- A fault that does not stop the program is caught. -/
theorem caught_of_not_stops {fault : Fault} (h : fault.stops = false) :
    caught (.error fault : Except Fault α) = .ok (.error fault) := by
  rw [caught, if_neg (by rw [h]; decide)]

/-- An attempt answers what is caught of the answer of the call. -/
theorem attempt_eq {call : FileM σ α} {s s' : σ} {r : Except Fault α} (h : call s = answer s' r) :
    call.attempt s = answer s' (caught r) := by
  rw [attempt, h]
  cases r with
  | ok a => rfl
  | error fault =>
    show (if fault.stops then _ else _) = answer s' (if fault.stops then _ else _)
    split <;> rfl

/-- An attempt ends with the answer of the call as its result, or with the fault of the call if that
stops the program. -/
theorem ends_attempt {call : FileM σ α} {s : σ} {Q : Except Fault α → σ → Prop}
    {E : Fault → σ → Prop} (h : Ends call s (fun a s' => Q (.ok a) s') fun fault s' =>
      if fault.stops then E fault s' else Q (.error fault) s') : Ends call.attempt s Q E := by
  cases hc : call s with
  | ok a s' => exact .of_ok (attempt_eq (r := .ok a) hc) (h.ok hc)
  | error fault s' =>
    have hq := h.error hc
    have ha := attempt_eq (r := .error fault) hc
    cases hs : fault.stops with
    | true => exact .of_error (by rw [ha, caught, hs]; rfl) (by simpa [hs] using hq)
    | false => exact .of_ok (by rw [ha, caught, hs]; rfl) (by simpa [hs] using hq)

/-- An attempt answers what the call answers, and raises faults only that stop the program. -/
theorem ends_attempt_answer (call : FileM σ α) (s : σ) :
    Ends call.attempt s (fun r s' => call s = answer s' r)
      (fun fault s' => call s = .error fault s' ∧ fault.stops = true) := by
  refine ends_attempt ?_
  cases h : call s with
  | ok a s' => exact .of_ok h rfl
  | error fault s' =>
    refine .of_error h ?_
    split
    · exact ⟨rfl, ‹_›⟩
    · exact rfl

/-- In every state of `P` the call has the answer `r`, and it leaves a state of `P`. -/
def Gives (P : σ → Prop) (call : FileM σ α) (r : Except Fault α) : Prop :=
  ∀ s, P s → ∃ s', P s' ∧ call s = answer s' r

variable {P : σ → Prop}

/-- A value that is returned is the answer in every state. -/
theorem gives_pure (a : α) : Gives P (pure a) (.ok a) := fun _ hs => ⟨_, hs, rfl⟩

/-- A fault that is thrown is the answer in every state. -/
theorem gives_throw (fault : Fault) : Gives P (throw fault : FileM σ α) (.error fault) :=
  fun _ hs => ⟨_, hs, rfl⟩

/-- A check has its own answer in every state. -/
theorem gives_ofExcept (r : Except Fault α) : Gives P (FileM.ofExcept r) r := by
  cases r with
  | ok a => exact gives_pure a
  | error fault => exact gives_throw fault

/-- The answer of two steps is that of the second one, computed from the answer of the first. -/
theorem Gives.bind {call : FileM σ α} {next : α → FileM σ β} {r : Except Fault α}
    {k : α → Except Fault β} (h : Gives P call r)
    (hn : ∀ a, r = .ok a → Gives P (next a) (k a)) : Gives P (call >>= next) (r >>= k) := by
  intro s hs
  obtain ⟨s', hs', hc⟩ := h s hs
  cases r with
  | ok a =>
    obtain ⟨s'', hs'', hn⟩ := hn a rfl s' hs'
    exact ⟨s'', hs'', (bind_of_ok hc).trans hn⟩
  | error fault => exact ⟨s', hs', bind_of_error hc⟩

/-- The bind of a call that gives a value goes on with that value. -/
theorem Gives.bind_ok {call : FileM σ α} {next : α → FileM σ β} {a : α} {r : Except Fault β}
    (h : Gives P call (.ok a)) (hn : Gives P (next a) r) : Gives P (call >>= next) r :=
  h.bind (k := fun _ => r) fun b hb => by cases hb; exact hn

/-- A call that gives a value raises no fault that could be replaced. -/
theorem Gives.mapFault {call : FileM σ α} {a : α} (h : Gives P call (.ok a)) (f : Fault → Fault) :
    Gives P (call.mapFault f) (.ok a) := by
  intro s hs
  obtain ⟨s', hs', hc⟩ := h s hs
  exact ⟨s', hs', by rw [FileM.mapFault, hc, answer_ok]⟩

/-- A choice between two calls has the answer of the one that is chosen. -/
theorem Gives.ite {c : Prop} [Decidable c] {x y : FileM σ α} {r t : Except Fault α}
    (hx : c → Gives P x r) (hy : ¬ c → Gives P y t) :
    Gives P (if c then x else y) (if c then r else t) := by
  split
  · exact hx ‹_›
  · exact hy ‹_›

/-- A sum that is a word leaves the state alone. -/
theorem sum_eq {a b : Nat} (h : a + b ≤ Word.max) (s : σ) : FileM.sum a b s = .ok (a + b) s := by
  rw [FileM.sum, Word.add?, if_pos h]
  rfl

/-- A sum that is no word stops the program. -/
theorem sum_overflow {a b : Nat} (h : Word.max < a + b) (s : σ) :
    FileM.sum a b s = .error .overflow s := by
  rw [FileM.sum, Word.add?, if_neg (Nat.not_le.2 h)]
  rfl

/-- The size of a stream is answered at once. -/
theorem size_eq [Channel σ] (s : σ) : FileM.size s = .ok (Channel.size s) s := rfl

/-- A sum that is a word has the same answer in every state. -/
theorem gives_sum {a b : Nat} (h : a + b ≤ Word.max) : Gives P (FileM.sum a b) (.ok (a + b)) :=
  fun s hs => ⟨s, hs, sum_eq h s⟩

/-- A sum that is no word stops the program in every state. -/
theorem gives_sum_overflow {a b : Nat} (h : ¬ a + b ≤ Word.max) :
    Gives P (FileM.sum a b) (.error .overflow) :=
  fun s hs => ⟨s, hs, sum_overflow (Nat.lt_of_not_le h) s⟩

/-- A check in front of a call gives its fault where it fails, and the answer of the call elsewhere.
-/
theorem Gives.guard {c : Prop} [Decidable c] {fault : Fault} {y : FileM σ α} {t : Except Fault α}
    (hy : ¬ c → Gives P y t) :
    Gives P (if c then throw fault >>= fun _ : PUnit => y else y)
      (if c then .error fault else t) :=
  .ite (fun _ _ hs => ⟨_, hs, rfl⟩) hy

section
variable [Stream σ] {content : ByteArray}

/-- The size of a stream is that of the content it serves. -/
theorem size_of_serves (hP : Serves P content) {s : σ} (hs : P s) :
    FileM.size s = .ok content.size s := by
  rw [size_eq, hP.size hs]

/-- The size of a stream has the same answer in every state in which it serves the content. -/
theorem gives_size (hP : Serves P content) : Gives P FileM.size (.ok content.size) :=
  fun s hs => ⟨s, hs, size_of_serves hP hs⟩

/-- An exact read of a range of the content gives its bytes. -/
theorem gives_readExactAt (hP : Serves P content) {offset len : Nat}
    (h : offset + len ≤ content.size) :
    Gives P (FileM.readExactAt offset len) (.ok (content.extract offset (offset + len))) := by
  intro s hs
  obtain ⟨s', hs', hr⟩ := hP.read offset len hs h
  exact ⟨s', hs', by rw [FileM.readExactAt, FileM.ofStream, hr, answer_ok]⟩

end

end FileM

end TaggedImage
