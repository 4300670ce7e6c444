import Mathlib.Order.Defs.Unbundled
import Patchbay.Studio.Clock

namespace Patchbay.Act

variable {α β : Type}

def Ends (act : Act α) (studio : Studio) (ok : α → Studio → Prop)
    (fail : Error → Studio → Prop) : Prop :=
  match act studio with
  | .ok a after => ok a after
  | .error e after => fail e after

-- The studio that an act leaves behind.
def after (act : Act α) (studio : Studio) : Studio :=
  match act studio with
  | .ok _ after => after
  | .error _ after => after

def succeeds (act : Act α) (studio : Studio) : Bool :=
  match act studio with
  | .ok _ _ => true
  | .error _ _ => false

theorem ok_of_succeeds {act : Act α} {s : Studio} (h : act.succeeds s = true) :
    ∃ a t, act s = .ok a t := by
  unfold succeeds at h
  cases hact : act s with
  | ok a t => exact ⟨a, t, rfl⟩
  | error e t => simp [hact] at h

theorem error_of_not_succeeds {act : Act α} {s : Studio} (h : act.succeeds s = false) :
    ∃ e, act s = .error e (act.after s) := by
  unfold succeeds at h
  unfold after
  cases hact : act s with
  | ok a t => simp [hact] at h
  | error e t => exact ⟨e, rfl⟩

theorem run_bind {act : Act β} {next : β → Act α} {b : β} {s t : Studio} (h : act s = .ok b t) :
    (act >>= next) s = next b t := by
  change EStateM.bind act next s = next b t
  rw [EStateM.bind, h]

theorem bind_of_error {act : Act β} {next : β → Act α} {e : Error} {s t : Studio}
    (h : act s = .error e t) : (act >>= next) s = .error e t := by
  change EStateM.bind act next s = .error e t
  rw [EStateM.bind, h]

theorem after_congr {act act' : Act α} {s t : Studio} (h : act s = act' t) :
    act.after s = act'.after t := by
  unfold after
  rw [h]

theorem after_of_ok {act : Act α} {a : α} {s t : Studio} (h : act s = .ok a t) : act.after s = t := by
  rw [after, h]

theorem forM_flatMap (items : List α) (f : α → List β) (act : β → Act PUnit) :
    (items.flatMap f).forM act = items.forM fun a => (f a).forM act := by
  simp only [List.forM_eq_forM]
  induction items with
  | nil => rfl
  | cons a rest ih => rw [List.flatMap_cons, List.forM_append, List.forM_cons, ih]

theorem forM_congr {items : List β} {act act' : β → Act PUnit} (h : ∀ b ∈ items, act b = act' b) :
    items.forM act = items.forM act' := by
  simp only [List.forM_eq_forM]
  induction items with
  | nil => rfl
  | cons b rest ih =>
      rw [List.forM_cons, List.forM_cons, h b List.mem_cons_self]
      exact bind_congr fun _ => ih fun other hother => h other (List.mem_cons_of_mem b hother)

theorem after_bind (act : Act β) (rest : β → Act α) (s : Studio) :
    (act >>= rest).after s = match act s with
      | .ok b t => (rest b).after t
      | .error _ t => t := by
  have hact : (act >>= rest) s = EStateM.bind act rest s := rfl
  unfold after
  rw [hact, EStateM.bind]
  cases act s <;> rfl

theorem after_modify (f : Studio → Studio) (s : Studio) : (modify f : Act PUnit).after s = f s := rfl

theorem after_map (act : Act β) (f : β → α) (s : Studio) :
    (do return f (← act) : Act α).after s = act.after s := by
  rw [after_bind]
  rfl

theorem after_discard (act : Act α) (s : Studio) : (discard act).after s = act.after s := by
  have hact : (discard act : Act Unit) s = EStateM.map (fun _ => ()) act s := rfl
  unfold after
  rw [hact, EStateM.map]
  cases act s <;> rfl

-- An act of two parts succeeds through both.
theorem ok_of_seq {act : Act β} {next : β → Act α} {a : α} {s u : Studio}
    (h : (act >>= next) s = .ok a u) : ∃ b t, act s = .ok b t ∧ next b t = .ok a u := by
  change EStateM.bind act next s = .ok a u at h
  unfold EStateM.bind at h
  cases hact : act s with
  | ok b t => exact ⟨b, t, rfl, by simpa [hact] using h⟩
  | error e t => simp [hact] at h

-- It fails in the one or the other.
theorem error_of_seq {act : Act β} {next : β → Act α} {e : Error} {s u : Studio}
    (h : (act >>= next) s = .error e u) :
    act s = .error e u ∨ ∃ b t, act s = .ok b t ∧ next b t = .error e u := by
  change EStateM.bind act next s = .error e u at h
  unfold EStateM.bind at h
  cases hact : act s with
  | ok b t => exact .inr ⟨b, t, rfl, by simpa [hact] using h⟩
  | error e' t => exact .inl (by simpa [hact] using h)

section Ends

variable {s : Studio} {ok : α → Studio → Prop} {fail : Error → Studio → Prop}

@[simp] theorem ends_pure (a : α) : Ends (pure a) s ok fail ↔ ok a s := Iff.rfl

@[simp] theorem ends_throw (e : Error) : Ends (throw e : Act α) s ok fail ↔ fail e s := Iff.rfl

@[simp] theorem ends_bind (act : Act β) (next : β → Act α) :
    Ends (act >>= next) s ok fail ↔ Ends act s (fun b s => Ends (next b) s ok fail) fail := by
  change (match EStateM.bind act next s with
    | .ok a after => ok a after
    | .error e after => fail e after) ↔ _
  unfold EStateM.bind Ends
  cases act s <;> rfl

@[simp] theorem ends_catch (act : Act α) (handle : Error → Act α) :
    Ends (tryCatch act handle) s ok fail ↔ Ends act s ok (fun e s => Ends (handle e) s ok fail) := by
  change (match EStateM.tryCatch act handle s with
    | .ok a after => ok a after
    | .error e after => fail e after) ↔ _
  unfold EStateM.tryCatch Ends
  cases act s <;> rfl

@[simp] theorem ends_get {ok : Studio → Studio → Prop} : Ends get s ok fail ↔ ok s s := Iff.rfl

@[simp] theorem ends_set {ok : PUnit → Studio → Prop} (t : Studio) :
    Ends (set t) s ok fail ↔ ok ⟨⟩ t := Iff.rfl

@[simp] theorem ends_modify {ok : PUnit → Studio → Prop} (f : Studio → Studio) :
    Ends (modify f) s ok fail ↔ ok ⟨⟩ (f s) := Iff.rfl

@[simp] theorem ends_modifyGet (f : Studio → α × Studio) :
    Ends (modifyGet f) s ok fail ↔ ok (f s).1 (f s).2 := Iff.rfl

@[simp] theorem ends_map (act : Act β) (f : β → α) :
    Ends (f <$> act) s ok fail ↔ Ends act s (fun b s => ok (f b) s) fail := by
  change (match EStateM.map f act s with
    | .ok a after => ok a after
    | .error e after => fail e after) ↔ _
  unfold EStateM.map Ends
  cases act s <;> rfl

@[simp] theorem ends_discard {ok : PUnit → Studio → Prop} (act : Act β) :
    Ends (discard act) s ok fail ↔ Ends act s (fun _ s => ok ⟨⟩ s) fail := by
  change Ends ((fun _ => PUnit.unit) <$> act) s ok fail ↔ _
  exact ends_map act _

@[simp] theorem ends_forM_nil {act : β → Act PUnit} {ok : PUnit → Studio → Prop} :
    Ends (List.forM [] act) s ok fail ↔ ok ⟨⟩ s := Iff.rfl

@[simp] theorem ends_forM_cons {act : β → Act PUnit} {ok : PUnit → Studio → Prop} (b : β)
    (rest : List β) : Ends (List.forM (b :: rest) act) s ok fail ↔
      Ends (act b) s (fun _ s => Ends (List.forM rest act) s ok fail) fail :=
  ends_bind (act b) fun _ => List.forM rest act

theorem Ends.mono {act : Act α} {ok' : α → Studio → Prop} {fail' : Error → Studio → Prop}
    (h : Ends act s ok fail) (hok : ∀ a t, ok a t → ok' a t) (hfail : ∀ e t, fail e t → fail' e t) :
    Ends act s ok' fail' := by
  unfold Ends at h ⊢
  cases hact : act s with
  | ok a t => rw [hact] at h; exact hok a t h
  | error e t => rw [hact] at h; exact hfail e t h

-- The failures stay as they are.
theorem Ends.imp {act : Act α} {ok' : α → Studio → Prop} (h : Ends act s ok fail)
    (hok : ∀ a t, ok a t → ok' a t) : Ends act s ok' fail :=
  h.mono hok fun _ _ hfail => hfail

theorem Ends.bind {act : Act β} {next : β → Act α} {mid : β → Studio → Prop}
    (h : Ends act s mid fail) (hnext : ∀ b t, mid b t → Ends (next b) t ok fail) :
    Ends (act >>= next) s ok fail :=
  (ends_bind act next).2 (h.imp hnext)

theorem Ends.and {act : Act α} {ok' : α → Studio → Prop} {fail' : Error → Studio → Prop}
    (h : Ends act s ok fail) (h' : Ends act s ok' fail') :
    Ends act s (fun a t => ok a t ∧ ok' a t) (fun e t => fail e t ∧ fail' e t) := by
  unfold Ends at h h' ⊢
  cases hact : act s with
  | ok a t => rw [hact] at h h'; exact ⟨h, h'⟩
  | error e t => rw [hact] at h h'; exact ⟨h, h'⟩

theorem ends_of_ok {act : Act α} {a : α} {t : Studio} (hact : act s = .ok a t)
    (h : Ends act s ok fail) : ok a t := by
  unfold Ends at h
  rwa [hact] at h

theorem ends_of_error {act : Act α} {e : Error} {t : Studio} (hact : act s = .error e t)
    (h : Ends act s ok fail) : fail e t := by
  unfold Ends at h
  rwa [hact] at h

theorem ends_of_eq {act : Act α} {a : α} {t : Studio} (hact : act s = .ok a t) (h : ok a t) :
    Ends act s ok fail := by
  unfold Ends
  rwa [hact]

theorem exists_of_ends {act : Act α} (h : Ends act s ok fun _ _ => False) :
    ∃ a t, act s = .ok a t ∧ ok a t := by
  unfold Ends at h
  cases hact : act s with
  | ok a t => rw [hact] at h; exact ⟨a, t, rfl, h⟩
  | error e t => rw [hact] at h; exact h.elim

theorem after_of_ends {act : Act α} {P : Studio → Prop}
    (h : Ends act s (fun _ t => P t) (fun _ t => P t)) : P (act.after s) := by
  unfold Ends at h
  unfold after
  cases hact : act s with
  | ok a t => rw [hact] at h; exact h
  | error e t => rw [hact] at h; exact h

theorem ends_host {context : ContextId} {call : Engine → Except HostFault Engine}
    {ok : Unit → Studio → Prop}
    (hok : ∀ after, call (s.engine context) = .ok after →
      ok () { s with engines := s.engines.modify context fun _ => after })
    (hfail : ∀ fault, call (s.engine context) = .error fault → fail (.host fault) s) :
    Ends (host context call) s ok fail := by
  unfold host
  simp only [engine, ends_bind, ends_get, ends_pure, ofExcept]
  cases hcall : call (s.engine context) with
  | ok after =>
      rw [ends_pure, setEngine, ends_modify]
      exact hok after hcall
  | error fault =>
      rw [ends_throw]
      exact hfail fault hcall

end Ends

-- The studio moves along `R`, and if the act succeeds `ok` holds besides.
def Along (R : Studio → Studio → Prop) (act : Act α) (studio : Studio)
    (ok : α → Studio → Prop) : Prop :=
  Ends act studio (fun a after => R studio after ∧ ok a after) (fun _ after => R studio after)

-- The act moves every studio along `R`.
def Keeps (R : Studio → Studio → Prop) (act : Act α) : Prop :=
  ∀ studio, Along R act studio fun _ _ => True

section Along

variable {R : Studio → Studio → Prop} [IsPreorder Studio R]
variable {s : Studio} {ok : α → Studio → Prop}

theorem along_pure {a : α} (h : ok a s) : Along R (pure a) s ok := ⟨refl s, h⟩

theorem along_throw (e : Error) : Along R (throw e : Act α) s ok := refl (r := R) s

theorem along_bind {act : Act β} {next : β → Act α} {mid : β → Studio → Prop}
    (h : Along R act s mid)
    (hnext : ∀ b t, R s t → mid b t → Along R (next b) t ok) : Along R (act >>= next) s ok := by
  unfold Along
  rw [ends_bind]
  refine Ends.mono h ?_ fun e t ht => ht
  rintro b t ⟨ht, hb⟩
  exact (hnext b t ht hb).mono (fun a u hu => ⟨trans_of R ht hu.1, hu.2⟩)
    fun e u hu => trans_of R ht hu

omit [IsPreorder Studio R] in
theorem along_map {act : Act β} {f : β → α} {mid : β → Studio → Prop} (h : Along R act s mid)
    (hf : ∀ b t, mid b t → ok (f b) t) : Along R (f <$> act) s ok := by
  unfold Along
  rw [ends_map]
  exact h.mono (fun b t ht => ⟨ht.1, hf b t ht.2⟩) fun _ _ ht => ht

theorem along_catch {act : Act α} {handle : Error → Act α} (h : Along R act s ok)
    (hhandle : ∀ e t, R s t → Along R (handle e) t ok) : Along R (tryCatch act handle) s ok := by
  unfold Along
  rw [ends_catch]
  refine Ends.mono h (fun a t ht => ht) fun e t ht => ?_
  exact (hhandle e t ht).mono (fun a u hu => ⟨trans_of R ht hu.1, hu.2⟩)
    fun e u hu => trans_of R ht hu

theorem along_check {p : Prop} [Decidable p] {e : Error} {next : Unit → Act α}
    (hnext : ¬p → Along R (next ()) s ok) :
    Along R (if p then throw e >>= next else next ()) s ok := by
  split
  case isTrue =>
      unfold Along
      rw [ends_bind, ends_throw]
      exact refl s
  case isFalse h => exact hnext h

omit [IsPreorder Studio R] in
theorem Along.mono {act : Act α} {ok' : α → Studio → Prop} (h : Along R act s ok)
    (hok : ∀ a t, R s t → ok a t → ok' a t) : Along R act s ok' :=
  Ends.mono h (fun a t ht => ⟨ht.1, hok a t ht.1 ht.2⟩) fun _ _ ht => ht

theorem along_get {ok : Studio → Studio → Prop} (h : ok s s) : Along R get s ok := ⟨refl s, h⟩

omit [IsPreorder Studio R] in
theorem along_set {t : Studio} (h : R s t) : Along R (set t) s fun _ _ => True := by
  unfold Along
  rw [ends_set]
  exact ⟨h, trivial⟩

omit [IsPreorder Studio R] in
theorem along_read {next : Studio → Act α} (h : Along R (next s) s ok) :
    Along R (get >>= next) s ok := by
  unfold Along
  rw [ends_bind, ends_get]
  exact h

omit [IsPreorder Studio R] in
theorem along_instrument {inst : InstrumentId} {next : Instrument → Act α}
    (h : Along R (next ((s.instruments[inst]?).getD (.new 0))) s ok) :
    Along R (instrument inst >>= next) s ok := by
  unfold Along instrument
  rw [ends_bind, ends_bind, ends_get, ends_pure]
  exact h

omit [IsPreorder Studio R] in
theorem along_now {context : ContextId} {next : Float → Act α}
    (h : Along R (next (s.now context)) s ok) : Along R (now context >>= next) s ok := by
  unfold Along now
  rw [ends_bind, ends_bind, ends_get, ends_pure]
  exact h

omit [IsPreorder Studio R] in
omit [IsPreorder Studio R] in
-- What else the act keeps to holds of its outcome.
theorem Keeps.both {Q : Studio → Studio → Prop} {act : Act α} (h : Keeps R act) (h' : Keeps Q act)
    (s : Studio) : Along R act s fun _ t => Q s t :=
  (Ends.and (h s) (h' s)).mono (fun _ _ ht => ⟨ht.1.1, ht.2.1⟩) fun _ _ ht => ht.1

theorem keeps_pure (a : α) : Keeps R (pure a) := fun _ => along_pure trivial

theorem keeps_throw (e : Error) : Keeps R (throw e : Act α) := fun _ => along_throw e

theorem keeps_get : Keeps R (get : Act Studio) := fun _ => along_get trivial

theorem keeps_bind {act : Act β} {next : β → Act α} (h : Keeps R act)
    (hnext : ∀ b, Keeps R (next b)) : Keeps R (act >>= next) :=
  fun s => along_bind (h s) fun b t _ _ => hnext b t

omit [IsPreorder Studio R] in
theorem keeps_map {act : Act β} (f : β → α) (h : Keeps R act) : Keeps R (f <$> act) :=
  fun s => along_map (h s) fun _ _ _ => trivial

omit [IsPreorder Studio R] in
theorem Keeps.mono {Q : Studio → Studio → Prop} {act : Act α} (h : Keeps R act)
    (hRQ : ∀ s t, R s t → Q s t) : Keeps Q act :=
  fun s => Ends.mono (h s) (fun _ _ h => ⟨hRQ _ _ h.1, trivial⟩) fun _ _ h => hRQ _ _ h

theorem keeps_catch {act : Act α} {handle : Error → Act α} (h : Keeps R act)
    (hhandle : ∀ e, Keeps R (handle e)) : Keeps R (tryCatch act handle) :=
  fun s => along_catch (h s) fun e t _ => hhandle e t

omit [IsPreorder Studio R] in
theorem keeps_ite {p : Prop} [Decidable p] {yes no : Act α} (hyes : Keeps R yes)
    (hno : Keeps R no) : Keeps R (if p then yes else no) := by
  split
  · exact hyes
  · exact hno

omit [IsPreorder Studio R] in
-- Only the studios where the relation asks for something count.
theorem keeps_where {p : Studio → Prop} {act : Act α} (hvoid : ∀ s t, ¬p s → R s t)
    (h : ∀ s, p s → Along R act s fun _ _ => True) : Keeps R act := by
  intro s
  by_cases hs : p s
  · exact h s hs
  · unfold Along Ends
    cases act s with
    | ok a t => exact ⟨hvoid s t hs, trivial⟩
    | error e t => exact hvoid s t hs

theorem keeps_forM {act : β → Act PUnit} : ∀ {items : List β},
    (∀ b ∈ items, Keeps R (act b)) → Keeps R (items.forM act)
  | [], _ => keeps_pure _
  | _ :: _, h => keeps_bind (h _ List.mem_cons_self)
      fun _ => keeps_forM fun b hb => h b (List.mem_cons_of_mem _ hb)

theorem along_mapM {act : β → Act α} {good : α → Prop} {items : List β}
    (h : ∀ b ∈ items, ∀ t, Along R (act b) t fun a _ => good a) :
    Along R (items.mapM act) s fun as _ => ∀ a ∈ as, good a := by
  induction items generalizing s with
  | nil => exact along_pure (by simp)
  | cons b rest ih =>
      rw [List.mapM_cons]
      refine along_bind (h b List.mem_cons_self s) fun a t _ ha => ?_
      refine along_bind (ih fun c hc => h c (List.mem_cons_of_mem _ hc)) fun as u _ has => ?_
      exact along_pure (List.forall_mem_cons.2 ⟨ha, has⟩)

theorem keeps_mapM {act : β → Act α} {items : List β} (h : ∀ b ∈ items, Keeps R (act b)) :
    Keeps R (items.mapM act) := by
  intro s
  have hall : Along R (items.mapM act) s fun as _ => ∀ a ∈ as, True := along_mapM h
  exact hall.mono fun _ _ _ _ => trivial

omit [IsPreorder Studio R] in
theorem along_modify {f : Studio → Studio} (h : R s (f s)) :
    Along R (modify f) s fun _ _ => True := ⟨h, trivial⟩

omit [IsPreorder Studio R] in
theorem along_modified {f : Studio → Studio} {ok : PUnit → Studio → Prop} (h : R s (f s))
    (hok : ok ⟨⟩ (f s)) : Along R (modify f) s ok := ⟨h, hok⟩

omit [IsPreorder Studio R] in
-- The outcome is that of the act.
theorem Along.outcome {act : Act α} (h : Along R act s ok) :
    Along R act s fun a t => ok a t ∧ act s = .ok a t := by
  unfold Along Ends at h ⊢
  cases hact : act s with
  | ok a t =>
      rw [hact] at h
      exact ⟨h.1, h.2, rfl⟩
  | error e t =>
      rw [hact] at h
      exact h

omit [IsPreorder Studio R] in
theorem keeps_modify {f : Studio → Studio} (h : ∀ s, R s (f s)) : Keeps R (modify f) :=
  fun s => along_modify (h s)

theorem keeps_ofExcept {ε : Type} (f : ε → Error) (result : Except ε α) :
    Keeps R (ofExcept f result) := by
  cases result with
  | ok a => exact keeps_pure a
  | error e => exact keeps_throw _

theorem keeps_engine (context : ContextId) : Keeps R (engine context) :=
  keeps_bind keeps_get fun _ => keeps_pure _

-- What the host refuses changes nothing.
theorem along_host {context : ContextId} {call : Engine → Except HostFault Engine}
    {ok : Unit → Studio → Prop}
    (h : ∀ engine, call (s.engine context) = .ok engine →
      R s { s with engines := s.engines.modify context fun _ => engine } ∧
        ok () { s with engines := s.engines.modify context fun _ => engine }) :
    Along R (host context call) s ok :=
  ends_host h fun _ _ => refl s

theorem keeps_now (context : ContextId) : Keeps R (now context) :=
  keeps_bind keeps_get fun _ => keeps_pure _

theorem keeps_instrument (inst : InstrumentId) : Keeps R (instrument inst) :=
  keeps_bind keeps_get fun _ => keeps_pure _

end Along

-- From here on an outcome is read off these rules, and nothing runs an act to see it.
attribute [irreducible] Ends

end Patchbay.Act
