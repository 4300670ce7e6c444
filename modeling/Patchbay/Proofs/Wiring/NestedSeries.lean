import Patchbay.Proofs.Lifetime.Steps
import Patchbay.Proofs.Host.Ownership

namespace Patchbay

open Act

-- What comes of putting the nodes in series, at whatever point that was done.
def Node.IsSeriesOf (node head : Node) (tail : List Node) : Prop :=
  ∃ s t, Node.inSeries head tail s = .ok node t

theorem Kept.size {s t : Studio} (h : Kept s t) : t.nodes.size = s.nodes.size := by
  have hnone (u : Studio) (id : NodeId) : u.node? id = none ↔ u.nodes.size ≤ id := by
    simp [Studio.node?]
  have hleast (id : NodeId) : t.nodes.size ≤ id ↔ s.nodes.size ≤ id := by
    rw [← hnone, ← hnone, h.nodes]
  exact Nat.le_antisymm ((hleast _).2 (Nat.le_refl _)) ((hleast _).1 (Nat.le_refl _))

namespace Node

variable {node head inner : Node} {tail nodes more : List Node}

theorem IsSeriesOf.eq_head (h : node.IsSeriesOf head []) : node = head := by
  obtain ⟨s, t, h⟩ := h
  cases h
  rfl

-- Of two or more nodes, a series is a node of its own.
theorem inSeries_eq (head : Node) (hne : tail ≠ []) : ∃ label duration release,
    inSeries head tail = (do
      head.chain tail
      enrol head.context label duration release fun info => .series info head tail) := by
  unfold inSeries
  cases hlast : tail.getLast? with
  | none => exact absurd (List.getLast?_eq_none_iff.1 hlast) hne
  | some last => exact ⟨_, _, _, rfl⟩

theorem IsSeriesOf.eq_series (h : node.IsSeriesOf head tail) (hne : tail ≠ []) :
    ∃ info, node = .series info head tail := by
  obtain ⟨s, t, h⟩ := h
  obtain ⟨label, duration, release, heq⟩ := inSeries_eq head hne
  rw [heq] at h
  obtain ⟨⟨⟩, u, -, hmade⟩ := ok_of_seq h
  obtain ⟨⟨info, hnode, -⟩, -⟩ := ends_of_ok hmade (ends_enrolled u)
  exact ⟨info, hnode⟩

-- It takes the next number.
theorem ends_inSeries_node? (head : Node) (hne : tail ≠ []) (s : Studio) :
    Ends (inSeries head tail) s (fun node t => t.node? s.nodes.size = some node)
      fun _ t => t.node? s.nodes.size = none := by
  have hnext : s.node? s.nodes.size = none := by simp [Studio.node?]
  obtain ⟨label, duration, release, heq⟩ := inSeries_eq head hne
  rw [heq, ends_bind]
  refine Ends.mono (keeps_chain (R := Kept) head tail s) (fun _ u hu => ?_) fun _ u hu => ?_
  · refine (ends_enrolled u).mono (fun node t ht => ?_) fun _ _ h => h.elim
    obtain ⟨-, state, hstanding, huntouched⟩ := ht
    have hnode : state.node = node := congrArg Prod.fst hstanding
    rw [(Kept.of_unmoved huntouched.toUnmoved).nodes, u.node?_push, if_pos hu.1.size.symm, hnode]
  · rw [hu.nodes, hnext]

theorem IsSeriesOf.reach (h : node.IsSeriesOf head tail) {part : Node} (hpart : part ∈ head :: tail) :
    part ∈ node.reach := by
  by_cases hnil : tail = []
  · subst hnil
    rw [h.eq_head, List.mem_singleton.1 hpart]
    exact self_mem_reach head
  · obtain ⟨info, rfl⟩ := h.eq_series hnil
    exact part_mem_reach hpart

theorem chainTime_append (nodes more : List Node) (time : Float) :
    chainTime (nodes ++ more) time = chainTime nodes (chainTime more time) := by
  induction nodes with
  | nil => rfl
  | cons node rest ih => rw [List.cons_append, chainTime, chainTime, ih]

variable {gone : NodeId → Bool}

theorem chainSteps_append (nodes more : List Node) (time : Float) :
    chainSteps gone (nodes ++ more) time =
      chainSteps gone more time ++ chainSteps gone nodes (chainTime more time) := by
  induction nodes with
  | nil => simp [chainSteps]
  | cons node rest ih =>
      rw [List.cons_append, chainSteps, chainSteps, ih, chainTime_append, List.append_assoc]

theorem stopSteps_series (info : NodeInfo) (head : Node) (tail : List Node) (time : Float) :
    (series info head tail).stopSteps gone time = .check (.series info head tail) time ::
      if gone info.id then [] else chainSteps gone (head :: tail) time := by
  rw [stopSteps, chainSteps]
  rfl

theorem chainSteps_of_idle (h : anyStartable nodes = false) (time : Float) :
    chainSteps gone nodes time = [] := by
  induction nodes with
  | nil => rfl
  | cons node rest ih =>
      rw [anyStartable, Bool.or_eq_false_iff] at h
      simp [chainSteps, ih h.2, h.1]

theorem chainTime_of_idle (h : anyStartable nodes = false) (time : Float) :
    chainTime nodes time = time := by
  induction nodes with
  | nil => rfl
  | cons node rest ih =>
      rw [anyStartable, Bool.or_eq_false_iff] at h
      simp [chainTime, ih h.2, h.1]

theorem stopSteps_head (gone : NodeId → Bool) (node : Node) (time : Float) :
    ∃ rest, node.stopSteps gone time = .check node time :: rest := by
  unfold stopSteps
  exact ⟨_, rfl⟩

-- The last of a chain that can be started is the first to be looked at.
theorem chainSteps_head (gone : NodeId → Bool) (h : anyStartable nodes = true) (time : Float) :
    ∃ node rest, chainSteps gone nodes time = .check node time :: rest := by
  induction nodes with
  | nil => simp [anyStartable] at h
  | cons node others ih =>
      rw [chainSteps]
      cases hothers : anyStartable others with
      | true =>
          obtain ⟨first, rest, hsteps⟩ := ih hothers
          exact ⟨first, _, by rw [hsteps, List.cons_append]⟩
      | false =>
          have hnode : node.isStartable = true := by simpa [anyStartable, hothers] using h
          obtain ⟨rest, hsteps⟩ := stopSteps_head gone node time
          refine ⟨node, rest, ?_⟩
          rw [chainSteps_of_idle hothers, chainTime_of_idle hothers, if_pos hnode, hsteps,
            List.nil_append]

-- Of a chain that is disconnected throughout, only the times are looked at.
theorem chainSteps_of_gone (h : ∀ node ∈ nodes, gone node.id = true) (time : Float) :
    ∀ step ∈ chainSteps gone nodes time, ∃ node x, step = .check node x := by
  induction nodes with
  | nil => simp [chainSteps]
  | cons node rest ih =>
      rw [chainSteps]
      refine List.forall_mem_append.2 ⟨ih fun other hother => ?_, ?_⟩
      · exact h other (List.mem_cons_of_mem node hother)
      · have hgone := h node List.mem_cons_self
        split
        case isTrue =>
            unfold stopSteps
            simp [hgone]
        case isFalse => simp

end Node

namespace Step

variable {s : Studio} {steps more more' : List Step}

-- The studio that the steps leave, if they are done one after the other as far as that goes.
def left (steps : List Step) (s : Studio) : Studio := (steps.forM Step.act).after s

theorem left_append (h : ∀ t, steps.forM Step.act s = .ok () t → left more t = left more' t) :
    left (steps ++ more) s = left (steps ++ more') s := by
  unfold left
  simp only [List.forM_eq_forM, List.forM_append]
  rw [after_bind, after_bind]
  cases hrun : forM steps Step.act s with
  | ok _ t => exact h t hrun
  | error e t => rfl

theorem left_check (node : Node) (time : Float) (steps : List Step) (s : Studio) :
    left (.check node time :: steps) s = if time.isFinite then left steps s else s := by
  change (node.checkTime time >>= fun _ => steps.forM Step.act).after s = _
  rw [after_bind, node.checkTime_eq]
  cases time.isFinite <;> rfl

theorem left_of_checks (h : ∀ step ∈ steps, ∃ node x, step = .check node x) : left steps s = s := by
  induction steps with
  | nil => rfl
  | cons step rest ih =>
      obtain ⟨⟨node, x, rfl⟩, hrest⟩ := List.forall_mem_cons.1 h
      rw [left_check, ih hrest, ite_self]

end Step

namespace Node

variable {gone : NodeId → Bool} {head inner node : Node} {tail : List Node}

theorem after_stop (node : Node) (time : Float) (s : Studio) :
    (node.stop time).after s = Step.left (node.stopSteps s.gone time) s := by
  have hstop : node.stop time s = (node.stopSteps s.gone time).forM Step.act s := by
    simpa using does_stop node time s rfl
  exact after_congr hstop

-- A series alone in a chain leaves what its own parts leave in its place. When it is disconnected,
-- they are.
theorem left_chain_series (hinner : inner.IsSeriesOf head tail)
    (hgone : gone inner.id = true → ∀ part ∈ head :: tail, gone part.id = true) (time : Float)
    (s : Studio) : Step.left (chainSteps gone [inner] time) s =
      Step.left (chainSteps gone (head :: tail) time) s := by
  by_cases hnil : tail = []
  · subst hnil
    rw [hinner.eq_head]
  · obtain ⟨info, rfl⟩ := hinner.eq_series hnil
    have hinnerSteps : chainSteps gone [series info head tail] time =
        if (series info head tail).isStartable then (series info head tail).stopSteps gone time
        else [] := by
      rw [chainSteps, chainSteps, chainTime, List.nil_append]
    have hany : (series info head tail).isStartable = anyStartable (head :: tail) := by
      rw [isStartable, anyStartable]
    rw [hinnerSteps, hany]
    cases hstarts : anyStartable (head :: tail) with
    | false => rw [if_neg Bool.false_ne_true, chainSteps_of_idle hstarts]
    | true =>
        rw [if_pos rfl, stopSteps_series, Step.left_check]
        cases hcut : gone info.id with
        | true =>
            have hchecks := chainSteps_of_gone (hgone hcut) time
            rw [if_pos rfl, Step.left_of_checks hchecks]
            exact ite_self s
        | false =>
            rw [if_neg Bool.false_ne_true]
            -- A time that is not finite stops the one at once and the other at its first look.
            obtain ⟨first, rest, hsteps⟩ := chainSteps_head gone hstarts time
            rw [hsteps, Step.left_check]
            split <;> rfl

end Node

namespace Session

-- A stop of a series whose first part is a series leaves what a stop of the series of all the parts
-- leaves: the same calls of the hosts, in the same order and at the same times, up to the same point
-- if a time on the way is not finite. Only the two themselves must not be disconnected; any of their
-- parts may be, the inner series among them.
theorem stop_regrouped (rate : Float) (commands : List Command) (head inner nested flat : Node)
    (tail more : List Node) (hmore : more ≠ []) (hinner : inner.IsSeriesOf head tail)
    (hnested : nested.IsSeriesOf inner more) (hflat : flat.IsSeriesOf head (tail ++ more))
    (hknown : (run rate commands).studio.node? nested.id = some nested)
    (hlive : (nested.state (run rate commands).studio).disconnected = false)
    (hlive' : (flat.state (run rate commands).studio).disconnected = false) (time : Float) :
    let s := (run rate commands).studio
    (nested.stop time).after s = (flat.stop time).after s := by
  intro s
  have hlawful := lawful_run rate commands
  have hsound : s.ledger.Sound 0 := hlawful.sound
  have hthere := (Studio.offers_of_node hsound hknown).1.known
  obtain ⟨info, rfl⟩ := hnested.eq_series hmore
  obtain ⟨info', rfl⟩ := hflat.eq_series (List.append_ne_nil_of_right_ne_nil tail hmore)
  rw [Node.state_disconnected] at hlive hlive'
  have hopen : s.gone info.id = false := hlive
  have hopen' : s.gone info'.id = false := hlive'
  -- A series that is disconnected has had its parts disconnected.
  have hgone : s.gone inner.id = true → ∀ part ∈ head :: tail, s.gone part.id = true := by
    intro hcut part hpart
    have hthereInner := hsound.knows_of_reach hthere (Node.part_mem_reach List.mem_cons_self)
    exact hlawful.cuts.cut_of_reach hsound rfl hthereInner hcut (hinner.reach hpart)
  rw [Node.after_stop, Node.after_stop, Node.stopSteps_series, Node.stopSteps_series,
    Step.left_check, Step.left_check, hopen, hopen', if_neg Bool.false_ne_true,
    if_neg Bool.false_ne_true]
  rw [← List.singleton_append, ← List.cons_append, Node.chainSteps_append, Node.chainSteps_append]
  split
  case isFalse => rfl
  case isTrue => exact Step.left_append fun t _ => Node.left_chain_series hinner hgone _ t

-- A command for a series that makes a node makes a series of the nodes that it names.
theorem isSeriesOf_made {rate : Float} {commands : List Command} {context : ContextId} {first : NodeId}
    {rest : List NodeId} {head made : Node} {tail : List Node} (hne : tail ≠ [])
    (hopened : (run rate commands).studio.hasContext context = true)
    (hhead : (run rate commands).studio.node? first = some head)
    (htail : rest.mapM (run rate commands).studio.node? = some tail)
    (hmade : (run rate (commands ++ [.make context (.series first rest)])).studio.node?
      (run rate commands).studio.nodes.size = some made) : made.IsSeriesOf head tail := by
  have hact : (Command.make context (.series first rest)).act? (run rate commands).studio =
      some (discard (Node.inSeries head tail)) := by
    simp [Command.act?, Maker.act?, guard, hopened, hhead, htail]
  rw [run_concat, studio_perform hact, after_discard] at hmade
  have hends := Node.ends_inSeries_node? head hne (run rate commands).studio
  cases hrun : Node.inSeries head tail (run rate commands).studio with
  | ok node t =>
      have hnode := ends_of_ok hrun hends
      rw [after_of_ok hrun, hnode] at hmade
      exact ⟨_, t, Option.some_inj.1 hmade ▸ hrun⟩
  | error e t =>
      have hnone := ends_of_error hrun hends
      rw [after, hrun, hnone] at hmade
      cases hmade

theorem node?_later (rate : Float) (commands more : List Command) {id : NodeId} {node : Node}
    (h : (run rate commands).studio.node? id = some node) :
    (run rate (commands ++ more)).studio.node? id = some node := by
  rw [Studio.node?_eq] at h ⊢
  exact ((moves_run rate commands more).grows.fate id).node node h

-- A tone through two envelopes, which are put into series one after the other and at once.
def regrouped : List Command := [
  .make 0 (.oscillator .sine (.fixed 440) none),
  .make 0 (.adsr .standard),
  .make 0 (.adsr .standard),
  .make 0 (.series 0 [1]),
  .make 0 (.series 3 [2]),
  .make 0 (.series 0 [1, 2]),
  .start 4 0]

theorem regrouped_stops_alike : ∃ head inner nested flat : Node, ∃ tail more : List Node, more ≠ [] ∧
    inner.IsSeriesOf head tail ∧ nested.IsSeriesOf inner more ∧ flat.IsSeriesOf head (tail ++ more) ∧
    let s := (run 44100 regrouped).studio
    s.node? nested.id = some nested ∧ (nested.state s).disconnected = false ∧
    (flat.state s).disconnected = false ∧ (nested.stop 1).after s = (flat.stop 1).after s ∧
    (((nested.stop 1).after s).engine 0).stops ≠ [] := by
  have hsome : ∀ id < 3, ((run 44100 (regrouped.take 3)).studio.node? id).isSome = true := by
    decide +kernel
  obtain ⟨head, hhead⟩ := Option.isSome_iff_exists.1 (hsome 0 (by decide))
  obtain ⟨first, hfirst⟩ := Option.isSome_iff_exists.1 (hsome 1 (by decide))
  obtain ⟨second, hsecond⟩ := Option.isSome_iff_exists.1 (hsome 2 (by decide))
  have hmade : ((run 44100 (regrouped.take 4)).studio.node? 3).isSome = true ∧
      ((run 44100 (regrouped.take 5)).studio.node? 4).isSome = true ∧
      ((run 44100 (regrouped.take 6)).studio.node? 5).isSome = true := by decide +kernel
  have hsizes : (run 44100 (regrouped.take 3)).studio.nodes.size = 3 ∧
      (run 44100 (regrouped.take 4)).studio.nodes.size = 4 ∧
      (run 44100 (regrouped.take 5)).studio.nodes.size = 5 := by decide +kernel
  obtain ⟨inner, hinner⟩ := Option.isSome_iff_exists.1 hmade.1
  obtain ⟨nested, hnested⟩ := Option.isSome_iff_exists.1 hmade.2.1
  obtain ⟨flat, hflat⟩ := Option.isSome_iff_exists.1 hmade.2.2
  have hknown : (run 44100 regrouped).studio.node? 4 = some nested :=
    node?_later 44100 (regrouped.take 5) (regrouped.drop 5) hnested
  have hknown' : (run 44100 regrouped).studio.node? 5 = some flat :=
    node?_later 44100 (regrouped.take 6) (regrouped.drop 6) hflat
  have hfacts : ∀ node ∈ (run 44100 regrouped).studio.node? 4,
      node.id = 4 ∧ (node.state (run 44100 regrouped).studio).disconnected = false ∧
      (((node.stop 1).after (run 44100 regrouped).studio).engine 0).stops ≠ [] := by decide +kernel
  have hfacts' : ∀ node ∈ (run 44100 regrouped).studio.node? 5,
      (node.state (run 44100 regrouped).studio).disconnected = false := by decide +kernel
  obtain ⟨hid, hlive, hstops⟩ := hfacts nested hknown
  have hlive' := hfacts' flat hknown'
  have hinnerSeries : inner.IsSeriesOf head [first] := by
    refine isSeriesOf_made (List.cons_ne_nil _ _) (by decide +kernel) hhead ?_ (hsizes.1 ▸ hinner)
    simp [hfirst]
  have hnestedSeries : nested.IsSeriesOf inner [second] := by
    refine isSeriesOf_made (List.cons_ne_nil _ _) (by decide +kernel) hinner ?_ (hsizes.2.1 ▸ hnested)
    have hsecond' : (run 44100 (regrouped.take 4)).studio.node? 2 = some second :=
      node?_later 44100 (regrouped.take 3) _ hsecond
    simp [hsecond']
  have hflatSeries : flat.IsSeriesOf head [first, second] := by
    have hearly {id : NodeId} {node : Node}
        (h : (run 44100 (regrouped.take 3)).studio.node? id = some node) :
        (run 44100 (regrouped.take 5)).studio.node? id = some node :=
      node?_later 44100 (regrouped.take 3) ((regrouped.drop 3).take 2) h
    refine isSeriesOf_made (List.cons_ne_nil _ _) (by decide +kernel) (hearly hhead) ?_
      (hsizes.2.2 ▸ hflat)
    simp [hearly hfirst, hearly hsecond]
  have hthere : (run 44100 regrouped).studio.node? nested.id = some nested := by rw [hid, hknown]
  refine ⟨head, inner, nested, flat, [first], [second], List.cons_ne_nil _ _, hinnerSeries,
    hnestedSeries, hflatSeries, hthere, hlive, hlive', ?_, hstops⟩
  exact stop_regrouped 44100 regrouped head inner nested flat [first] [second]
    (List.cons_ne_nil _ _) hinnerSeries hnestedSeries hflatSeries hthere hlive hlive' 1

end Session

end Patchbay
