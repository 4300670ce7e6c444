import Patchbay.Proofs.Ledger.Offers
import Patchbay.Proofs.Ledger.Moves
import Patchbay.Studio.Clock

namespace Patchbay

open Act

-- From one studio to the other the debts are paid, and no others are left behind.
def Pays (N : Nat) (debts : List Debt) (s t : Studio) : Prop :=
  ∀ D P, Moves N ⟨s.ledger, debts ++ D, P⟩ ⟨t.ledger, D, P⟩

namespace Pays

variable {N : Nat} {s t u : Studio} {debts rest : List Debt}

theorem of_ledger (h : t.ledger = s.ledger) : Pays N [] s t := by
  intro D P
  rw [h]
  exact .refl

theorem trans (h : Pays N debts s t) (h' : Pays N rest t u) : Pays N (debts ++ rest) s u := by
  intro D P
  rw [List.append_assoc]
  exact (h (rest ++ D) P).trans (h' D P)

-- One move, and what it runs up.
theorem move (h : ∀ D P, Move N ⟨s.ledger, debts ++ D, P⟩ ⟨t.ledger, rest ++ D, P⟩)
    (h' : Pays N rest t u) : Pays N debts s u :=
  fun D P => .head (h D P) (h' D P)

theorem grows (h : Pays N debts s t) : s.ledger.Grows t.ledger := (h [] ⟨[], []⟩).grows

theorem sound (h : Pays N debts s t) (hs : s.ledger.Sound N) : t.ledger.Sound N :=
  (h [] ⟨[], []⟩).sound hs

theorem weaken (h : Pays N debts s t) : Pays 0 debts s t := fun D P => (h D P).weaken

theorem single (h : ∀ D P, Move N ⟨s.ledger, debts ++ D, P⟩ ⟨t.ledger, D, P⟩) : Pays N debts s t :=
  fun D P => .single (h D P)

theorem of_building (h : Building N s t) : Pays N [] s t := fun _ _ => .of_made h

end Pays

instance {N : Nat} : IsPreorder Studio (Pays N []) where
  refl _ := .of_ledger rfl
  trans _ _ _ h h' := h.trans h'

instance {N : Nat} : Plays (Pays N []) :=
  plays_of_ledger (fun _ _ h => .of_ledger h) fun s t context request h =>
    .of_building (show Made N s.ledger t.ledger by
      rw [h]
      exact .single (.request context request))

-- The act pays the debts and never fails.
def Settles (N : Nat) (debts : List Debt) {α : Type} (act : Act α) (s : Studio) : Prop :=
  Ends act s (fun _ t => Pays N debts s t) fun _ _ => False

section Settles

variable {N : Nat} {s : Studio} {debts rest : List Debt} {α β : Type}

theorem settles_pure (a : α) : Settles N [] (pure a) s := by
  unfold Settles
  rw [ends_pure]
  exact .of_ledger rfl

theorem Settles.weaken {act : Act α} (h : Settles N debts act s) : Settles 0 debts act s :=
  Ends.mono h (fun _ _ h => h.weaken) fun _ _ h => h

theorem settles_bind {act : Act β} {next : β → Act α} (h : Settles N debts act s)
    (hnext : ∀ b t, Pays N debts s t → Settles N rest (next b) t) :
    Settles N (debts ++ rest) (act >>= next) s := by
  unfold Settles
  rw [ends_bind]
  exact h.mono (fun b t hb => (hnext b t hb).mono (fun _ _ ht => hb.trans ht) fun _ _ h => h)
    fun _ _ h => h

theorem settles_modify {f : Studio → Studio} (h : (f s).ledger = s.ledger) :
    Settles N [] (modify f) s := by
  unfold Settles
  rw [ends_modify]
  exact .of_ledger h

theorem settles_read {next : Studio → Act α} (h : Settles N debts (next s) s) :
    Settles N debts (get >>= next) s := by
  unfold Settles
  rw [ends_bind, ends_get]
  exact h

theorem settles_pure_bind {next : β → Act α} {b : β} (h : Settles N debts (next b) s) :
    Settles N debts (pure b >>= next) s := by
  unfold Settles
  rw [ends_bind, ends_pure]
  exact h

theorem settles_pure_move {a : α} (h : ∀ D P, Move N ⟨s.ledger, debts ++ D, P⟩ ⟨s.ledger, D, P⟩) :
    Settles N debts (pure a) s := by
  unfold Settles
  rw [ends_pure]
  exact .single h

-- One move, and an act that pays what it runs up.
theorem settles_move {f : Studio → Studio} {next : PUnit → Act α}
    (hmove : ∀ D P, Move N ⟨s.ledger, debts ++ D, P⟩ ⟨(f s).ledger, rest ++ D, P⟩)
    (h : Settles N rest (next ⟨⟩) (f s)) : Settles N debts (modify f >>= next) s := by
  unfold Settles
  rw [ends_bind, ends_modify]
  exact h.mono (fun _ _ ht => .move hmove ht) fun _ _ h => h

theorem settles_catch {act : Act α} {handle : Error → Act α} (h : Settles N debts act s) :
    Settles N debts (tryCatch act handle) s := by
  unfold Settles
  rw [ends_catch]
  exact h.mono (fun _ _ h => h) fun _ _ h => h.elim

-- What fails part of the way leaves nothing owed, and the handler takes over.
theorem settles_try {act : Act α} {handle : Error → Act α}
    (h : Along (Pays N []) act s fun _ _ => True) (hhandle : ∀ e t, Settles N [] (handle e) t) :
    Settles N [] (tryCatch act handle) s := by
  unfold Settles
  rw [ends_catch]
  exact Ends.mono h (fun _ _ h => h.1) fun e t h =>
    (hhandle e t).mono (fun _ _ h' => h.trans h') fun _ _ h => h

theorem Settles.along {act : Act α} (h : Settles N [] act s) :
    Along (Pays N []) act s fun _ _ => True :=
  Ends.mono h (fun _ _ h => ⟨h, trivial⟩) fun _ _ h => h.elim

theorem settles_forM {items : List β} {act : β → Act PUnit} {owes : β → List Debt}
    (hs : s.ledger.Sound N)
    (h : ∀ b ∈ items, ∀ t, s.ledger.Grows t.ledger → t.ledger.Sound N →
      Settles N (owes b) (act b) t) : Settles N (items.flatMap owes) (items.forM act) s := by
  induction items generalizing s with
  | nil => exact settles_pure _
  | cons b rest ih =>
      refine settles_bind (h b List.mem_cons_self s (.refl _) hs) fun _ t hst => ?_
      exact ih (hst.sound hs) fun b' hb' u htu hu =>
        h b' (List.mem_cons_of_mem _ hb') u (hst.grows.trans htu) hu

theorem settles_mapM {items : List β} {act : β → Act α} (hs : s.ledger.Sound N)
    (h : ∀ b ∈ items, ∀ t, s.ledger.Grows t.ledger → t.ledger.Sound N → Settles N [] (act b) t) :
    Settles N [] (items.mapM act) s := by
  induction items generalizing s with
  | nil => exact settles_pure _
  | cons b rest ih =>
      rw [List.mapM_cons]
      refine settles_bind (h b List.mem_cons_self s (.refl _) hs) fun _ t hst => ?_
      have hrest : Settles N [] (rest.mapM act) t := ih (hst.sound hs) fun b' hb' u htu hu =>
        h b' (List.mem_cons_of_mem _ hb') u (hst.grows.trans htu) hu
      exact settles_bind hrest fun _ u _ => settles_pure _

end Settles

variable {N : Nat} {s : Studio}

theorem Node.state_disconnected (node : Node) :
    (node.state s).disconnected = (s.ledger.fate node.id).cut := by
  simp only [state, Studio.ledger]
  cases s.nodes[node.id]? <;> rfl

theorem Node.state_ended (node : Node) : (node.state s).ended = (s.ledger.fate node.id).ended := by
  simp only [state, Studio.ledger]
  cases s.nodes[node.id]? <;> rfl

-- The same for nodes of every shape: own hosts first, then parts.
theorem Node.disconnect_eq (node : Node) : node.disconnect = (do
    if (node.state (← get)).disconnected then return
    changeNode node.id fun state => { state with disconnected := true }
    node.cutHosts.forM fun host => Act.host node.context (·.disconnect host)
    disconnectAll node.parts
    changeNode node.id fun state => { state with connected := false }) := by
  cases node with
  | leaf info host source params modulators =>
      rw [disconnect]
      by_cases h : host = Engine.destination
      · simp [cutHosts, parts, h]
      · simp [cutHosts, parts, h, context]
        rfl
  | envelope info host attack release =>
      rw [disconnect]
      simp [cutHosts, parts, disconnectAll, context]
      rfl
  | series info head tail =>
      rw [disconnect]
      simp [cutHosts, parts, disconnectAll]
  | parallel info input output branches =>
      rw [disconnect]
      simp [cutHosts, parts, context]
      rfl
  | wrapped info inner others =>
      rw [disconnect]
      simp [cutHosts, parts, disconnectAll]

-- It marks what it reaches, and has host nodes disconnected.
theorem Node.keeps_disconnect {R : Studio → Studio → Prop} [IsPreorder Studio R] (node : Node)
    (hmark : ∀ inner ∈ node.reach, Keeps R (changeNode inner.id fun state =>
      { state with disconnected := true }))
    (hcut : ∀ context host, Keeps R (Act.host context (·.disconnect host)))
    (hconnected : ∀ id, Keeps R (changeNode id fun state => { state with connected := false })) :
    Keeps R node.disconnect := by
  induction node using Node.induct with
  | step node ih =>
      have hparts {parts : List Node} (h : ∀ part ∈ parts, Keeps R part.disconnect) :
          Keeps R (disconnectAll parts) := by
        induction parts with
        | nil => exact keeps_pure _
        | cons part rest ih =>
            refine keeps_bind (h part List.mem_cons_self) fun _ => ?_
            exact ih fun other hother => h other (List.mem_cons_of_mem _ hother)
      rw [disconnect_eq]
      refine keeps_bind keeps_get fun _ => keeps_ite (keeps_pure _) ?_
      refine keeps_bind (hmark node (self_mem_reach node)) fun _ => ?_
      refine keeps_bind (keeps_forM fun host _ => hcut node.context host) fun _ => ?_
      refine keeps_bind (hparts fun part hpart => ih part hpart fun inner hinner => ?_) fun _ => ?_
      · exact hmark inner (reach_trans hinner (part_mem_reach hpart))
      · exact hconnected node.id

def Studio.cutHost (s : Studio) (context : ContextId) (host : HostId) : Studio :=
  { s with engines := s.engines.modify context fun _ => ((s.engine context).change host
      fun node => { node with disconnected := true }).record (.disconnect host) }

theorem Studio.ledger_cutHost (context : ContextId) (host : HostId) :
    (s.cutHost context host).ledger = s.ledger.setHost context host .cutOff :=
  s.ledger_changeHost (f := fun node => { node with disconnected := true }) rfl fun _ => rfl

-- A host node that is there is disconnected.
theorem Studio.cutHost_eq_ok {context : ContextId} {host : HostId}
    (hhost : s.ledger.HasHost context host) :
    Act.host context (·.disconnect host) s = .ok () (s.cutHost context host) := by
  have hfound : ∃ node, (s.engine context).nodes[host]? = some node := by
    simp only [Ledger.HasHost, Studio.ledger] at hhost
    unfold Studio.engine
    cases hengine : s.engines[context]? with
    | none => simp [hengine] at hhost
    | some engine =>
        simp only [hengine, Option.elim, Engine.hosts, Option.isSome_map] at hhost
        exact Option.isSome_iff_exists.1 hhost
  obtain ⟨node, hnode⟩ := hfound
  have hcall : (s.engine context).disconnect host = .ok (((s.engine context).change host
      fun node => { node with disconnected := true }).record (.disconnect host)) := by
    simp only [Engine.disconnect, Engine.find_eq_ok.2 hnode]
    rfl
  change (Act.ofExcept .host ((s.engine context).disconnect host) >>= setEngine context) s = _
  rw [hcall]
  rfl

theorem settles_cutHost {context : ContextId} {host : HostId} (hhost : s.ledger.HasHost context host) :
    Settles N [.cutHost context host] (Act.host context (·.disconnect host)) s := by
  refine ends_of_eq (Studio.cutHost_eq_ok hhost) (.single fun D P => ?_)
  rw [Studio.ledger_cutHost]
  exact .cutHost context host

theorem Node.settles_disconnectAll {nodes : List Node} (hs : s.ledger.Sound N)
    (hnodes : ∀ node ∈ nodes, s.ledger.Knows node)
    (h : ∀ node ∈ nodes, ∀ t : Studio, t.ledger.Sound N → t.ledger.Knows node →
      Settles N [.cut node] node.disconnect t) :
    Settles N (nodes.map .cut) (disconnectAll nodes) s := by
  induction nodes generalizing s with
  | nil => exact settles_pure _
  | cons node rest ih =>
      rw [disconnectAll]
      have hfirst := h node List.mem_cons_self s hs (hnodes node List.mem_cons_self)
      refine settles_bind hfirst fun _ t hst => ?_
      exact ih (hst.sound hs)
        (fun other hother => (hnodes other (List.mem_cons_of_mem _ hother)).grow hst.grows)
        fun other hother => h other (List.mem_cons_of_mem _ hother)

-- A disconnection reaches everything below the node, and never fails.
theorem Node.settles_disconnect {node : Node} (hs : s.ledger.Sound N) (hnode : s.ledger.Knows node) :
    Settles N [.cut node] node.disconnect s := by
  induction node using induct generalizing s with
  | step node ih =>
      rw [disconnect_eq]
      refine settles_read ?_
      rw [state_disconnected]
      split
      case isTrue hcut =>
          unfold Settles
          rw [ends_pure]
          exact .single fun D P => .cutAgain node hcut
      case isFalse hcut =>
          have hcut : (s.ledger.fate node.id).cut = false := Bool.not_eq_true _ ▸ hcut
          have hformed := hs.formed hnode
          have hmark := s.ledger_changeNode (g := .cutOff) hformed.below
            (f := fun state => { state with disconnected := true }) fun _ => rfl
          have hrest {t : Studio} (hst : s.ledger.Grows t.ledger) (ht : t.ledger.Sound N) :
              Settles N node.cuts (do
                node.cutHosts.forM fun host => Act.host node.context (·.disconnect host)
                disconnectAll node.parts
                changeNode node.id fun state => { state with connected := false }) t := by
            have hhosts : Settles N (node.cutHosts.map (.cutHost node.context))
                (node.cutHosts.forM fun host => Act.host node.context (·.disconnect host)) t := by
              rw [List.map_eq_flatMap]
              refine settles_forM ht fun host hhost u htu hu => settles_cutHost ?_
              exact ((hformed.hosts host (mem_ownHosts_of_cut hhost)).grow hst).grow htu
            refine settles_bind hhosts fun _ u htu => ?_
            have hparts : Settles N (node.parts.map .cut) (disconnectAll node.parts) u := by
              refine settles_disconnectAll (htu.sound ht) (fun part hpart => ?_)
                fun part hpart v hv hknown => ih part hpart hv hknown
              exact ((hformed.parts part hpart).1.grow hst).grow htu.grows
            rw [← List.append_nil (node.parts.map _)]
            refine settles_bind hparts fun _ v huv => settles_modify ?_
            exact v.ledger_changeNode_eq _ fun _ => rfl
          have hgrows := s.ledger.grows_setFate node.id (Fate.grows_cutOff (s.ledger.fate node.id))
          refine settles_move (fun D P => ?_) (hrest ?_ ?_)
          · rw [hmark]
            exact .cut node hnode hcut
          · rw [hmark]
            exact hgrows
          · rw [hmark]
            exact hs.setFate _ (Fate.grows_cutOff _) rfl fun _ => .inl

end Patchbay
