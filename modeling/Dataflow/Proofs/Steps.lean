import Dataflow.Proofs.RingPosition

/-!
Total correctness of steps.

`Step.Ends m s Q E`: from `s` on, an answer and the state after it satisfy `Q`, and the operation stops only in a way
and a state that satisfy `E`. `Step.Yields m s Q`: it neither faults nor fails.
-/

namespace Dataflow

open Function List

namespace Step

variable {ε σ τ α β : Type} {m : Step ε σ α} {s : σ} {Q R : α → σ → Prop} {f : α → Step ε σ β} {put : σ → τ → σ}
  {view : σ → τ} {t : σ}

/-! ## Steps that answer -/

/-- a step in two parts that answers: both parts do -/
theorem exec_bind_ok {b : β} {s'' : σ} (h : (m >>= f).exec s = (.ok b, s'')) :
    ∃ a s', m.exec s = (.ok a, s') ∧ (f a).exec s' = (.ok b, s'') := by
  change (m >>= f).run.run s = _ at h
  rw [ExceptT.run_bind, StateT.run_bind] at h
  match hm : m.run.run s with
  | (.ok a, s') =>
    simp only [hm] at h
    exact ⟨a, s', hm, h⟩
  | (.error e, s') =>
    simp only [hm] at h
    cases h

section Inversion

variable {b : β} {s'' : σ}

theorem exec_get_bind_ok {f : σ → Step ε σ β} (h : (get >>= f).exec s = (.ok b, s'')) :
    (f s).exec s = (.ok b, s'') := by
  obtain ⟨_, _, h1, h2⟩ := exec_bind_ok h
  cases h1
  exact h2

theorem exec_set_bind_ok {f : PUnit → Step ε σ β} (h : (set t >>= f).exec s = (.ok b, s'')) :
    (f ⟨⟩).exec t = (.ok b, s'') := by
  obtain ⟨_, _, h1, h2⟩ := exec_bind_ok h
  cases h1
  exact h2

theorem exec_checked_bind_ok {x : Checked α}
    (h : ((liftM x : Step ε σ α) >>= f).exec s = (.ok b, s'')) : ∃ a, x = .ok a ∧ (f a).exec s = (.ok b, s'') := by
  obtain ⟨_, _, h1, h2⟩ := exec_bind_ok h
  match x with
  | .ok _ => cases h1; exact ⟨_, rfl, h2⟩
  | .error f => cases h1

theorem exec_except_bind_ok {x : Except (Stop ε) α}
    (h : ((liftM x : Step ε σ α) >>= f).exec s = (.ok b, s'')) : ∃ a, x = .ok a ∧ (f a).exec s = (.ok b, s'') := by
  obtain ⟨_, _, h1, h2⟩ := exec_bind_ok h
  match x with
  | .ok _ => cases h1; exact ⟨_, rfl, h2⟩
  | .error f => cases h1

theorem exec_zoom_ok {m : Step ε τ α} {a : α} {s' : σ}
    (h : (zoom view put m).exec s = (.ok a, s')) : ∃ part, m.exec (view s) = (.ok a, part) ∧ s' = put s part := by
  have h' : ((m.exec (view s)).1, put s (m.exec (view s)).2) = (.ok a, s') := h
  obtain ⟨ha, hs⟩ := Prod.mk.inj h'
  exact ⟨(m.exec (view s)).2, Prod.ext ha rfl, hs.symm⟩

end Inversion

/-! ## Operations that may stop -/

/-- from `s` on: an answer satisfies `Q`, and a stop satisfies `E` -/
def Ends (m : Step ε σ α) (s : σ) (Q : α → σ → Prop) (E : Stop ε → σ → Prop) : Prop :=
  match m.exec s with
  | (.ok a, s') => Q a s'
  | (.error stop, s') => E stop s'

/-- from `s` on, the operation answers, and answer and state satisfy `Q` -/
abbrev Yields (m : Step ε σ α) (s : σ) (Q : α → σ → Prop) : Prop := Ends m s Q fun _ _ => False

variable {E E' : Stop ε → σ → Prop} {a : α} {s' : σ} {xs : List β} {g : Nat → Step ε σ α} {n : Nat}

theorem Ends.imp (h : Ends m s Q E) (hQ : ∀ a s', Q a s' → R a s')
    (hE : ∀ stop s', E stop s' → E' stop s') : Ends m s R E' := by
  unfold Ends at h ⊢
  split at h
  · exact hQ _ _ h
  · exact hE _ _ h

theorem Ends.mono (h : Ends m s Q E) (hQ : ∀ a s', Q a s' → R a s') : Ends m s R E := h.imp hQ fun _ _ hE => hE

theorem Yields.ends (h : Yields m s Q) : Ends m s Q E := h.imp (fun _ _ hQ => hQ) fun _ _ hE => hE.elim

theorem Yields.exec (h : Yields m s Q) : ∃ a s', m.exec s = (.ok a, s') ∧ Q a s' := by
  unfold Yields Ends at h
  split at h
  · next hm => exact ⟨_, _, hm, h⟩
  · exact h.elim

/-- two facts about one operation -/
theorem Ends.and (h : Ends m s Q E) (h' : Ends m s R E') :
    Ends m s (fun a s' => Q a s' ∧ R a s') fun stop s' => E stop s' ∧ E' stop s' := by
  unfold Ends at h h' ⊢
  generalize m.exec s = answered at h h' ⊢
  obtain ⟨answer, s'⟩ := answered
  cases answer <;> exact ⟨h, h'⟩

theorem Ends.of_ok (h : Ends m s Q E) (hm : m.exec s = (.ok a, s')) : Q a s' := by
  unfold Ends at h
  rwa [hm] at h

theorem Ends.of_error (h : Ends m s Q E) {stop : Stop ε} (hm : m.exec s = (.error stop, s')) : E stop s' := by
  unfold Ends at h
  rwa [hm] at h

theorem ends_exec (hm : m.exec s = (.ok a, s')) (h : Q a s') : Ends m s Q E := by
  rwa [Ends, hm]

theorem ends_pure (h : Q a s) : Ends (pure a : Step ε σ α) s Q E := h

theorem ends_bind_iff {Q : β → σ → Prop} :
    Ends (m >>= f) s Q E ↔ Ends m s (fun a s' => Ends (f a) s' Q E) E := by
  change (match (m >>= f).run.run s with
    | (.ok b, s') => Q b s'
    | (.error stop, s') => E stop s') ↔ match m.run.run s with
    | (.ok a, s') => match (f a).run.run s' with
      | (.ok b, s'') => Q b s''
      | (.error stop, s'') => E stop s''
    | (.error stop, s') => E stop s'
  rw [ExceptT.run_bind, StateT.run_bind]
  match m.run.run s with
  | (.ok a, s') | (.error stop, s') => rfl

theorem ends_bind {Q : β → σ → Prop} (h : Ends m s (fun a s' => Ends (f a) s' Q E) E) :
    Ends (m >>= f) s Q E := ends_bind_iff.2 h

theorem ends_get {Q : σ → σ → Prop} (h : Q s s) : Ends (get : Step ε σ σ) s Q E := h

theorem ends_set {Q : PUnit → σ → Prop} (h : Q ⟨⟩ t) : Ends (set t : Step ε σ PUnit) s Q E := h

theorem ends_modify {f : σ → σ} {Q : PUnit → σ → Prop} (h : Q ⟨⟩ (f s)) : Ends (modify f : Step ε σ PUnit) s Q E := h

theorem ends_fail {e : ε} (h : E (.error e) s) : Ends (fail e : Step ε σ α) s Q E := h

/-- a checked computation inside a step, whether it answers or faults -/
theorem ends_checked {x : Checked α} (hok : ∀ a, x = .ok a → Q a s) (hfault : ∀ f, x = .error f → E (.fault f) s) :
    Ends (liftM x : Step ε σ α) s Q E := by
  match x with
  | .ok a => exact hok a rfl
  | .error f => exact hfault f rfl

/-- a checked computation that answers -/
theorem ends_ok {x : Checked α} (hx : x = .ok a) (h : Q a s) : Ends (liftM x : Step ε σ α) s Q E := by
  subst hx
  exact h

theorem ends_except_ok {x : Except (Stop ε) α} (hx : x = .ok a) (h : Q a s) : Ends (liftM x : Step ε σ α) s Q E := by
  subst hx
  exact h

/-- a computation with the same errors inside a step -/
theorem ends_except {x : Except (Stop ε) α} (hok : ∀ a, x = .ok a → Q a s)
    (hstop : ∀ stop, x = .error stop → E stop s) : Ends (liftM x : Step ε σ α) s Q E := by
  match x with
  | .ok a => exact hok a rfl
  | .error stop => exact hstop stop rfl

theorem ends_state {x : StateM σ α} (h : Q (x.run s).1 (x.run s).2) : Ends (liftM x : Step ε σ α) s Q E := h

theorem ends_zoom {m : Step ε τ α}
    (h : Ends m (view s) (fun a part => Q a (put s part)) fun stop part => E stop (put s part)) :
    Ends (zoom view put m) s Q E := by
  unfold Ends at h ⊢
  have hzoom : (zoom view put m).exec s = ((m.exec (view s)).1, put s (m.exec (view s)).2) := rfl
  rw [hzoom]
  split at h
  · next hm => rw [hm]; exact h
  · next hm => rw [hm]; exact h

/-! ## Loops -/

/-- a loop over a list that collects answers, with an invariant that does not look at the elements done -/
theorem ends_mapM {f : β → Step ε σ α} (I : σ → Prop) (h0 : I s)
    (hstep : ∀ x ∈ xs, ∀ s, I s → Ends (f x) s (fun _ s' => I s') E) : Ends (xs.mapM f) s (fun _ s' => I s') E := by
  induction xs generalizing s with
  | nil => exact ends_pure h0
  | cons x xs ih =>
    rw [mapM_cons]
    refine ends_bind ((hstep x mem_cons_self s h0).mono fun _ s' hs' => ?_)
    exact ends_bind ((ih hs' fun y hy => hstep y (mem_cons_of_mem x hy)).mono fun _ s'' hs'' => ends_pure hs'')

private theorem ends_mapM_range' (I : Nat → σ → Prop) (k n : Nat) (h0 : I k s)
    (hstep : ∀ i, k ≤ i → i < k + n → ∀ s, I i s → Ends (g i) s (fun _ s' => I (i + 1) s') E) :
    Ends ((range' k n).mapM g) s (fun _ s' => I (k + n) s') E := by
  induction n generalizing k s with
  | zero => exact ends_pure h0
  | succ n ih =>
    rw [range'_succ, mapM_cons]
    refine ends_bind ((hstep k le_rfl (by omega) s h0).mono fun _ s' hs' => ?_)
    have := ih (k + 1) hs' fun i hk hn => hstep i (by omega) (by omega)
    rw [show k + 1 + n = k + (n + 1) by omega] at this
    exact ends_bind (this.mono fun _ s'' hs'' => ends_pure hs'')

/-- a loop over the first `n` numbers that collects answers; `I i` holds before round `i` -/
theorem ends_mapM_range (I : Nat → σ → Prop) (h0 : I 0 s)
    (hstep : ∀ i < n, ∀ s, I i s → Ends (g i) s (fun _ s' => I (i + 1) s') E) :
    Ends ((range n).mapM g) s (fun _ s' => I n s') E := by
  have := ends_mapM_range' I 0 n h0 fun i _ hi => hstep i (by omega)
  rwa [← range_eq_range', Nat.zero_add] at this

/-- a loop over the first `n` numbers; `I` holds for the answers so far -/
theorem ends_mapM_answers (I : List α → σ → Prop) (h0 : I [] s)
    (hstep : ∀ done s, done.length < n → I done s → Ends (g done.length) s (fun a s' => I (done ++ [a]) s') E) :
    Ends ((range n).mapM g) s (fun answers s' => answers.length = n ∧ I answers s') E := by
  induction n with
  | zero => exact ends_pure ⟨rfl, h0⟩
  | succ n ih =>
    rw [range_succ, mapM_append]
    refine ends_bind ((ih fun done s hlt hI => hstep done s (Nat.lt_succ_of_lt hlt) hI).mono ?_)
    rintro answers s1 ⟨hlen, hI⟩
    simp only [mapM_cons, mapM_nil, bind_assoc, pure_bind]
    refine ends_bind ?_
    rw [← hlen]
    refine (hstep answers s1 (by omega) hI).mono fun a s2 hI2 => ends_pure ⟨?_, hI2⟩
    rw [length_append, length_singleton]

/-- a loop whose answers are not collected -/
theorem Ends.forM {f : β → Step ε σ PUnit} {Q : σ → Prop} (h : Ends (xs.mapM f) s (fun _ s' => Q s') E) :
    Ends (xs.forM f) s (fun _ s' => Q s') E := by
  induction xs generalizing s with
  | nil => exact h
  | cons x xs ih =>
    rw [mapM_cons] at h
    refine ends_bind ((ends_bind_iff.1 h).mono fun _ s' hs' => ih ?_)
    refine (ends_bind_iff.1 hs').mono fun _ s'' hs'' => hs''

section Sweep

variable {A : Type} {I : (Nat → A) → σ → Prop} {x y : A}

private theorem sweep_step (hstep : ∀ i < n, ∀ f s, f i = x → I f s →
    Ends (g i) s (fun _ s' => I (update f i y) s') E) (i : Nat) (hi : i < n) (s : σ)
    (hI : I (fun k => if k < i then y else x) s) :
    Ends (g i) s (fun _ s' => I (fun k => if k < i + 1 then y else x) s') E := by
  refine (hstep i hi _ s (if_neg (Nat.lt_irrefl i)) hI).mono fun _ s' hs' => ?_
  have : update (fun k => if k < i then y else x) i y = fun k => if k < i + 1 then y else x := by
    funext k
    by_cases hk : k = i
    · simp [hk]
    · rw [update_of_ne hk]
      by_cases hlt : k < i
      · rw [if_pos hlt, if_pos (by omega)]
      · rw [if_neg hlt, if_neg (by omega)]
  rwa [this] at hs'

/-- a loop that takes one part after the other from `x` to `y` -/
theorem ends_sweep (hlocal : ∀ f f' s, (∀ i < n, f i = f' i) → I f s → I f' s) (h0 : I (fun _ => x) s)
    (hstep : ∀ i < n, ∀ f s, f i = x → I f s → Ends (g i) s (fun _ s' => I (update f i y) s') E) :
    Ends ((range n).mapM g) s (fun _ s' => I (fun _ => y) s') E :=
  (ends_mapM_range (fun i s => I (fun k => if k < i then y else x) s) (by simpa using h0) (sweep_step hstep)).mono
    fun _ s' hs' => hlocal _ _ s' (fun i hi => if_pos hi) hs'

end Sweep

/-! ## Operations that stop for ordinary errors only -/

/-- from `s` on, the operation does not fault, and if it answers, answer and state satisfy `Q` -/
abbrev Safe (m : Step ε σ α) (s : σ) (Q : α → σ → Prop) : Prop := Ends m s Q fun stop _ => ∃ e, stop = .error e

/-! ## Operations of whose stops nothing is said -/

/-- from `s` on, an answer satisfies `Q` -/
abbrev Gives (m : Step ε σ α) (s : σ) (Q : α → σ → Prop) : Prop := Ends m s Q fun _ _ => True

theorem gives_of_forall (h : ∀ a s', Q a s') : Gives m s Q := by
  unfold Gives Ends
  split
  · exact h _ _
  · trivial

theorem gives_checked {x : Checked α} (h : ∀ a, x = .ok a → Q a s) : Gives (liftM x : Step ε σ α) s Q :=
  ends_checked h fun _ _ => trivial

/-! ## Operations that keep to a way -/

/-- what can be said of the states before and after an operation, by a bound on what is counted in between -/
structure Way (ε σ : Type) where
  /-- the operation answers -/
  leads : Nat → σ → σ → Prop
  /-- the operation stops -/
  stops : Nat → Stop ε → σ → σ → Prop
  refl : ∀ s, leads 0 s s
  trans : ∀ {m n s s' s''}, leads m s s' → leads n s' s'' → leads (m + n) s s''
  mono : ∀ {m n s s'}, m ≤ n → leads m s s' → leads n s s'
  halts : ∀ stop s, stops 0 stop s s
  leads_stops : ∀ {m n stop s s' s''}, leads m s s' → stops n stop s' s'' → stops (m + n) stop s s''
  stops_mono : ∀ {m n stop s s'}, m ≤ n → stops m stop s s' → stops n stop s s'

namespace Way

/-- nothing is counted, and all operations keep to the relation -/
def ofRel (R : σ → σ → Prop) [IsPreorder σ R] : Way ε σ where
  leads _ := R
  stops _ _ := R
  refl := refl_of R
  trans := trans_of R
  mono _ h := h
  halts _ := refl_of R
  leads_stops := trans_of R
  stops_mono _ h := h

/-- what can be said of one part of the state -/
def comap (W : Way ε τ) (part : σ → τ) : Way ε σ where
  leads n s s' := W.leads n (part s) (part s')
  stops n stop s s' := W.stops n stop (part s) (part s')
  refl s := W.refl (part s)
  trans := W.trans
  mono := W.mono
  halts stop s := W.halts stop (part s)
  leads_stops := W.leads_stops
  stops_mono := W.stops_mono

/-- the operation keeps to the way, and counts no more than `n` -/
def Follows (W : Way ε σ) (op : Step ε σ α) (n : Nat) : Prop :=
  ∀ s, Ends op s (fun _ s' => W.leads n s s') fun stop s' => W.stops n stop s s'

variable {W : Way ε σ} {op : Step ε σ α}

theorem Follows.bind (h : W.Follows op 0) (hf : ∀ a, W.Follows (f a) n) : W.Follows (op >>= f) n := by
  intro s
  refine ends_bind ((h s).imp (fun a s1 h1 => ?_) fun _ _ h1 => W.stops_mono (Nat.zero_le n) h1)
  exact (hf a s1).imp (fun _ _ h2 => W.mono (Nat.zero_add n).le (W.trans h1 h2))
    fun _ _ h2 => W.stops_mono (Nat.zero_add n).le (W.leads_stops h1 h2)

/-- all that is counted comes first -/
theorem Follows.andThen (h : W.Follows op n) (hf : ∀ a, W.Follows (f a) 0) : W.Follows (op >>= f) n := by
  intro s
  refine ends_bind ((h s).mono fun a s1 h1 => ?_)
  exact (hf a s1).imp (fun _ _ h2 => W.trans h1 h2) fun _ _ h2 => W.leads_stops h1 h2

theorem leads_refl (W : Way ε σ) (n : Nat) (s : σ) : W.leads n s s := W.mono (Nat.zero_le n) (W.refl s)

theorem stops_refl (W : Way ε σ) (n : Nat) (stop : Stop ε) (s : σ) : W.stops n stop s s :=
  W.stops_mono (Nat.zero_le n) (W.halts stop s)

theorem follows_pure (a : α) : W.Follows (pure a) n := fun s => ends_pure (W.leads_refl n s)

theorem follows_get : W.Follows get n := fun s => ends_get (W.leads_refl n s)

theorem follows_modify {f : σ → σ} (hf : ∀ s, W.leads n s (f s)) : W.Follows (modify f) n := fun s => ends_modify (hf s)

theorem follows_throw (stop : Stop ε) : W.Follows (throw stop : Step ε σ α) n :=
  fun s => show W.stops n stop s s from W.stops_refl n stop s

theorem follows_fail (e : ε) : W.Follows (fail e : Step ε σ α) n := follows_throw _

theorem follows_checked (x : Checked α) : W.Follows (liftM x : Step ε σ α) n :=
  fun s => ends_checked (fun _ _ => W.leads_refl n s) fun _ _ => W.stops_refl n _ s

/-- an operation on a part of the state -/
theorem follows_zoom {V : Way ε τ} {op : Step ε τ α} (h : V.Follows op n)
    (hput : ∀ s t, V.leads n (view s) t → W.leads n s (put s t))
    (hstop : ∀ stop s t, V.stops n stop (view s) t → W.stops n stop s (put s t)) : W.Follows (zoom view put op) n :=
  fun s => ends_zoom ((h (view s)).imp (fun _ t ht => hput s t ht) fun stop t ht => hstop stop s t ht)

/-- a loop in which nothing is counted -/
theorem follows_mapM {f : β → Step ε σ α} (h : ∀ x ∈ xs, W.Follows (f x) 0) : W.Follows (xs.mapM f) 0 :=
  fun s => ends_mapM (W.leads 0 s) (W.refl s) fun x hx _ hs =>
    (h x hx _).imp (fun _ _ hs' => W.trans hs hs') fun _ _ hs' => W.leads_stops hs hs'

theorem follows_forM {f : β → Step ε σ PUnit} (h : ∀ x ∈ xs, W.Follows (f x) 0) : W.Follows (xs.forM f) 0 :=
  fun s => (follows_mapM h s).forM

end Way

end Step

end Dataflow
