import Patchbay.Proofs.Ledger.Entries
import Patchbay.Synth.Voice
import Patchbay.Plate

namespace Patchbay

open Act

variable {N : Nat} {s : Studio}

theorem Studio.lt_of_knows {node : Node} (h : s.ledger.Knows node) : node.id < s.nodes.size := by
  by_contra hlt
  rw [Ledger.Knows, Studio.fate_eq, Array.getElem?_eq_none (Nat.not_lt.1 hlt)] at h
  cases h

theorem Studio.fate_size : s.ledger.fate s.nodes.size = .absent := by
  simp [Studio.ledger]

-- Drives that nodes may be made with.
def Drive.Offered (L : Ledger) (N : Nat) : Drive → Prop
  | .fixed _ => True
  | .source node => L.Offers N node

theorem Drive.Offered.grow {L M : Ledger} {drive : Drive} (h : drive.Offered L N)
    (hLM : L.Grows M) : drive.Offered M N := by
  cases drive with
  | fixed x => trivial
  | source node => exact Ledger.Offers.grow h hLM

-- What a making act leaves: a node that is on offer.
abbrev Offering (N : Nat) (act : Act Node) (s : Studio) : Prop :=
  Builds N act s fun node L => L.Offers N node

theorem offering_pure {node : Node} (h : s.ledger.Offers N node) : Offering N (pure node) s :=
  along_pure h

namespace Node

variable {context : ContextId}

section Enrol

variable {label : String} {duration release : Option Float} {make : NodeInfo → Node}

theorem fits_enrol {node : Node} (hready : s.ledger.Ready N node.context)
    (hid : node.id = s.ledger.size) (hparts : ∀ part ∈ node.parts, s.ledger.Offers N part)
    (hhosts : ∀ host ∈ node.ownHosts, s.ledger.HasHost node.context host)
    (hspares : Engine.destination ∉ node.cutHosts) : s.ledger.Fits N node :=
  ⟨hid, hid ▸ s.fate_size, hready.late, hready.opened, hparts, hhosts, hspares⟩

theorem awaited_known {node : Node} (hparts : ∀ part ∈ node.parts, s.ledger.Offers N part) :
    ∀ id ∈ node.awaited, id < s.nodes.size := by
  intro id hid
  obtain ⟨member, hmember, -, rfl⟩ := mem_awaited.1 hid
  exact Studio.lt_of_knows (hparts member (node.members_subset_parts hmember)).known

theorem offers_enrol {L : Ledger} {node : Node} (hfits : L.Fits N node)
    (hready : L.Ready N node.context) : (L.enrol node).Offers N node := by
  refine ⟨?_, ?_, hready.grow (Ledger.grows_enrol hfits.absent)⟩
  · simp [Ledger.Knows, Ledger.enrol, Ledger.entry]
  · exact hfits.id ▸ hready.late

-- Of a node that is no source.
theorem offering_enrol (hready : s.ledger.Ready N context)
    (hinfo : ∀ info, (make info).info = info) (hs : ∀ info, (make info).source? = none)
    (hparts : ∀ info, ∀ part ∈ (make info).parts, s.ledger.Offers N part)
    (hhosts : ∀ info, ∀ host ∈ (make info).ownHosts, s.ledger.HasHost context host)
    (hspares : ∀ info, Engine.destination ∉ (make info).cutHosts) :
    Offering N (enrol context label duration release make) s := by
  refine (ends_enrol hinfo fun info => awaited_known (hparts info)).mono ?_ fun _ _ h => h.elim
  rintro _ t ⟨⟨info, rfl, rfl⟩, hid, ht⟩
  have hcontext : (make info).context = info.context := congrArg NodeInfo.context (hinfo info)
  rw [← hcontext] at hready
  have hfits : s.ledger.Fits N (make info) := fits_enrol hready hid (hparts info)
    (hcontext ▸ hhosts info) (hspares info)
  dsimp only
  rw [ht]
  exact ⟨by rw [Building, ht]; exact .single (.node _ hfits (hs info)), offers_enrol hfits hready⟩

end Enrol

-- Setting parameters makes nothing; the modulators come from the drives.
theorem along_plugs {R : Studio → Studio → Prop} [Connects R] {host : HostId} {kind : NodeKind}
    (params : List (Param × Option Drive)) (s : Studio) :
    Along R (bind context host kind params) s fun modulators _ =>
      ∀ node ∈ modulators, ∃ entry ∈ params, entry.2 = some (.source node) := by
  induction params generalizing s with
  | nil => exact along_pure (by simp)
  | cons entry rest ih =>
      have htail {modulators : List Node}
          (h : ∀ node ∈ modulators, ∃ entry ∈ rest, entry.2 = some (.source node)) :
          ∀ node ∈ modulators, ∃ e ∈ entry :: rest, e.2 = some (.source node) := by
        intro node hnode
        obtain ⟨e, he, heq⟩ := h node hnode
        exact ⟨e, List.mem_cons_of_mem _ he, heq⟩
      obtain ⟨param, drive⟩ := entry
      cases drive with
      | none =>
          rw [bind]
          exact (ih s).mono fun modulators _ _ h => htail h
      | some drive =>
          rw [bind]
          refine along_check fun _ => ?_
          have hplug : Along R (Drive.plug context host param (some drive)) s
              fun modulator _ => ∀ node, modulator = some node → drive = .source node := by
            cases drive with
            | fixed x =>
                exact along_bind (Connects.setParam context host param x s)
                  fun _ _ _ _ => along_pure (by simp)
            | source node =>
                refine along_bind (Connects.setParam context host param 0 s) fun _ t _ _ => ?_
                exact along_bind (keeps_connectEndpoint node _ t) fun _ _ _ _ => along_pure (by simp)
          refine along_bind hplug fun modulator t _ hmodulator => ?_
          refine along_bind (ih t) fun modulators _ _ hmodulators => along_pure ?_
          intro node hnode
          rcases List.mem_append.1 hnode with hnode | hnode
          · rw [hmodulator node (by simpa using hnode)]
            exact ⟨_, List.mem_cons_self, rfl⟩
          · exact htail hmodulators node hnode

end Node

-- Besides, no source ends.
def Wiring (N : Nat) (s t : Studio) : Prop :=
  Building N s t ∧
    ∀ c h, (t.ledger.host c h).map HostFate.ended = (s.ledger.host c h).map HostFate.ended

instance : IsPreorder Studio (Wiring N) where
  refl s := ⟨refl_of (Building N) s, fun _ _ => rfl⟩
  trans _ _ _ h h' := ⟨trans_of (Building N) h.1 h'.1, fun c k => (h'.2 c k).trans (h.2 c k)⟩

theorem Request.ended_mark (request : Request) (f : HostFate) :
    (request.mark f).ended = f.ended := by
  cases request <;> rfl

instance : Plays (Wiring N) := by
  refine plays_of_ledger (fun s t h => ⟨?_, fun c k => by rw [h]⟩)
    fun s t context request h => ⟨?_, fun c k => ?_⟩
  · rw [Building, h]
    exact refl_of (Made N) _
  · rw [Building, h]
    exact .single (.request context request)
  · rw [h, Ledger.host_setHost]
    split
    case isTrue hck =>
        obtain ⟨rfl, rfl⟩ := hck
        cases s.ledger.host c request.host <;> simp [request.ended_mark]
    case isFalse => rfl

namespace Node

variable {context : ContextId}

theorem offering_ofKind {kind : NodeKind} {params : List (Param × Option Drive)}
    (hready : s.ledger.Ready N context)
    (hdrives : ∀ entry ∈ params, ∀ drive ∈ entry.2, drive.Offered s.ledger N) :
    Offering N (ofKind context kind params) s := by
  refine builds_bind (builds_createHost kind hready) fun host t hst hhost => ?_
  obtain ⟨hfresh, hne⟩ := hhost
  have hbind : Builds N (bind context host kind params) t fun modulators L =>
      (∃ fate, L.host context host = some fate ∧ fate.kind = some kind ∧ fate.ended = false) ∧
        ∀ node ∈ modulators, s.ledger.Offers N node := by
    refine Ends.mono (along_plugs (R := Wiring N) params t) (fun modulators u h => ?_) fun _ _ h => h.1
    refine ⟨h.1.1, ?_, fun node hnode => ?_⟩
    · obtain ⟨fate, hfate, hgrows⟩ := (Made.grows h.1.1).host context host _ hfresh
      have hended := h.1.2 context host
      rw [hfate, hfresh] at hended
      exact ⟨fate, hfate, hgrows.kind, by simpa [HostFate.fresh] using hended⟩
    · obtain ⟨entry, hentry, hsource⟩ := h.2 node hnode
      exact hdrives entry hentry _ hsource
  refine builds_bind hbind fun modulators u htu hu => ?_
  obtain ⟨hfate, hmodulators⟩ := hu
  have hgrows : s.ledger.Grows u.ledger := hst.trans htu
  let make (info : NodeInfo) : Node := .leaf info host kind.isSource kind.params modulators
  have hparts (info : NodeInfo) : ∀ part ∈ (make info).parts, u.ledger.Offers N part :=
    fun part hpart => (hmodulators part hpart).grow hgrows
  have hmade : Ends (enrol context (kind.name ++ hostLabel host) kind.naturalLength
      (longestRelease modulators) make) u (fun node v => ∃ info, node = make info ∧
        node.context = context ∧ u.ledger.Fits N node ∧ v.ledger = u.ledger.enrol node)
      fun _ _ => False := by
    refine (ends_enrol (fun _ => rfl) fun info => awaited_known (hparts info)).mono ?_ fun _ _ h => h
    rintro _ v ⟨⟨info, rfl, rfl⟩, hid, hv⟩
    refine ⟨info, rfl, rfl, fits_enrol (hready.grow hgrows) hid (hparts info) ?_ ?_, hv⟩
    · intro own hown
      obtain rfl : own = host := by simpa [make, ownHosts] using hown
      exact Option.isSome_iff_exists.2 ⟨_, hfate.choose_spec.1⟩
    · simpa [make, cutHosts, hne] using hne.symm
  unfold Builds Along
  rw [ends_bind]
  refine hmade.mono ?_ fun _ _ h => h.elim
  rintro _ v ⟨info, rfl, hcontext, hfits, hv⟩
  have hoffers : (u.ledger.enrol (make info)).Offers N (make info) :=
    offers_enrol hfits (hcontext.symm ▸ hready.grow hgrows)
  cases hsource : kind.isSource with
  | false =>
      have hmakes := Makes.node _ hfits (by simp [make, source?, hsource])
      simp only [Bool.false_eq_true, ite_false, ends_pure]
      exact ⟨by rw [Building, hv]; exact .single hmakes, hv ▸ hoffers⟩
  | true =>
      obtain ⟨fate, hfate, hkind, hended⟩ := hfate
      have hmakes := Makes.source _ host kind hfits (by simp [make, source?, hsource]) hsource
        ⟨fate, hcontext ▸ hfate, hkind, hended⟩
      simp only [ite_true, ends_bind, ends_pure, engine, setEngine, ends_get, ends_modify]
      refine ⟨?_, ?_⟩
      · rw [Building, v.ledger_watch, hv]
        exact .single (hcontext ▸ hmakes)
      · rw [v.ledger_watch, hv]
        exact hoffers.grow (Ledger.grows_setHost _ _ _ (HostFate.grows_watch _))

theorem offering_destination (hready : s.ledger.Ready N context) :
    Offering N (destination context) s := by
  refine offering_enrol hready (fun _ => rfl) (fun _ => rfl) (by simp [parts]) ?_ ?_
  · intro info host hhost
    obtain rfl : host = Engine.destination := by simpa [ownHosts] using hhost
    exact hready.output
  · simp [cutHosts]

theorem keeps_chain {R : Studio → Studio → Prop} [Connects R] (node : Node) (tail : List Node) :
    Keeps R (node.chain tail) := by
  induction tail generalizing node with
  | nil => exact keeps_pure _
  | cons next rest ih =>
      rw [chain]
      exact keeps_bind keeps_get fun _ => keeps_ite (keeps_bind (keeps_connect _ _) fun _ => ih next)
        (ih next)

theorem offering_inSeries {head : Node} {tail : List Node} (hhead : s.ledger.Offers N head)
    (htail : ∀ node ∈ tail, s.ledger.Offers N node) : Offering N (inSeries head tail) s := by
  unfold inSeries
  split
  · exact offering_pure hhead
  · refine builds_then (keeps_chain head tail) fun _ t hst => ?_
    refine offering_enrol (hhead.ready.grow hst) (fun _ => rfl) (fun _ => rfl) ?_ ?_ ?_
    · intro info part hpart
      rcases List.mem_cons.1 hpart with rfl | hpart
      · exact hhead.grow hst
      · exact (htail part hpart).grow hst
    · simp [ownHosts]
    · simp [cutHosts]

theorem keeps_joinBranch {R : Studio → Studio → Prop} [Connects R] {input output : HostId}
    (branch : Node) : Keeps R (joinBranch context input output branch) := by
  refine keeps_bind keeps_get fun _ => keeps_ite ?_ (keeps_connectEndpoint _ _)
  exact keeps_bind (Connects.connect context input (.node branch.inputHost))
    fun _ => keeps_connectEndpoint _ _

theorem offering_inParallel {first : Node} {rest : List Node} (hfirst : s.ledger.Offers N first)
    (hrest : ∀ node ∈ rest, s.ledger.Offers N node) : Offering N (inParallel first rest) s := by
  refine builds_bind (builds_createHost .gain hfirst.ready) fun input t hst hinput => ?_
  refine builds_bind (builds_createHost .gain (hfirst.ready.grow hst)) fun output u htu houtput => ?_
  refine builds_then (Plays.request first.context (.setParam input .gain 1)) fun _ v huv => ?_
  refine builds_then (Plays.request first.context (.setParam output .gain 1)) fun _ w hvw => ?_
  have hjoin : Keeps (Building N) ((first :: rest).forM (joinBranch first.context input output)) :=
    keeps_forM fun branch _ => keeps_joinBranch branch
  refine builds_then hjoin fun _ x hwx => ?_
  have hux : u.ledger.Grows x.ledger := (huv.trans hvw).trans hwx
  have htx : t.ledger.Grows x.ledger := htu.trans hux
  have hsx : s.ledger.Grows x.ledger := hst.trans htx
  refine offering_enrol (hfirst.ready.grow hsx) (fun _ => rfl) (fun _ => rfl) ?_ ?_ ?_
  · intro info part hpart
    rcases List.mem_cons.1 hpart with rfl | hpart
    · exact hfirst.grow hsx
    · exact (hrest part hpart).grow hsx
  · intro info host hhost
    obtain rfl | rfl : host = input ∨ host = output := by simpa [ownHosts] using hhost
    · exact Ledger.HasHost.grow (Option.isSome_iff_exists.2 ⟨_, hinput.1⟩) htx
    · exact Ledger.HasHost.grow (Option.isSome_iff_exists.2 ⟨_, houtput.1⟩) hux
  · intro info h
    rcases List.mem_pair.1 h with h | h
    · exact hinput.2 h.symm
    · exact houtput.2 h.symm

theorem offering_wrap {inner : Node} {others : List Node} (hinner : s.ledger.Offers N inner)
    (hothers : ∀ node ∈ others, s.ledger.Offers N node) : Offering N (wrap inner others) s := by
  unfold wrap
  split
  · exact offering_pure hinner
  · have hmade : Offering N (enrol inner.context (inner.label ++ "+" ++ toString others.length)
        inner.duration inner.release fun info => .wrapped info inner others) s := by
      refine offering_enrol hinner.ready (fun _ => rfl) (fun _ => rfl) ?_ ?_ ?_
      · intro info part hpart
        rcases List.mem_cons.1 hpart with rfl | hpart
        · exact hinner
        · exact hothers part hpart
      · simp [ownHosts]
      · simp [cutHosts]
    refine builds_bind hmade fun node t hst hnode => ?_
    refine builds_then keeps_get fun _ u htu => ?_
    refine builds_then (Plays.connected _ _) fun _ v huv => ?_
    exact offering_pure ((hnode.grow htu).grow huv)

theorem offering_shaper {attack : Contour} {release : Option Contour}
    (hready : s.ledger.Ready N context) : Offering N (shaper context attack release) s := by
  refine builds_bind (builds_createHost .gain hready) fun host t hst hhost => ?_
  refine builds_then (Plays.request context (.setParam host .gain 0)) fun _ u htu => ?_
  refine offering_enrol ((hready.grow hst).grow htu) (fun _ => rfl) (fun _ => rfl) ?_ ?_ ?_
  · simp [parts]
  · intro info own hown
    obtain rfl : own = host := by simpa [ownHosts] using hown
    exact Ledger.HasHost.grow (Option.isSome_iff_exists.2 ⟨_, hhost.1⟩) htu
  · simpa [cutHosts] using fun _ => hhost.2.symm

end Node

theorem keeps_warn (warning : Warning) : Keeps (Building N) (warn warning) :=
  keeps_modify fun s => refl_of (Made N) s.ledger

-- A warning on the way makes nothing.
theorem builds_warned {α : Type} {p : Prop} [Decidable p] {warning : Warning} {next : Unit → Act α}
    {ok : α → Ledger → Prop} (h : ∀ t, s.ledger.Grows t.ledger → Builds N (next ()) t ok) :
    Builds N (if p then warn warning >>= next else next ()) s ok := by
  split
  case isTrue => exact builds_then (keeps_warn warning) fun _ t hst => h t hst
  case isFalse => exact h s (.refl _)

namespace Node

variable {context : ContextId}

theorem offering_playback {buffer : Option Buffer} {looping : Bool} {detune : Option Drive}
    (hready : s.ledger.Ready N context) (hdetune : ∀ drive ∈ detune, drive.Offered s.ledger N) :
    Offering N (playback context buffer looping detune) s := by
  unfold playback
  refine builds_warned fun _ hst => offering_ofKind (hready.grow hst) ?_
  simpa using fun drive hdrive => (hdetune drive hdrive).grow hst

theorem offering_noise {duration : Option Float} {looping : Bool}
    (hready : s.ledger.Ready N context) : Offering N (noise context duration looping) s :=
  builds_then (keeps_engine context) fun _ _ hst => offering_playback (hready.grow hst) (by simp)

theorem offering_gain {level : Drive} (hready : s.ledger.Ready N context)
    (hlevel : level.Offered s.ledger N) : Offering N (gain context level) s :=
  offering_ofKind hready (by simpa using hlevel)

theorem offering_bypass (hready : s.ledger.Ready N context) : Offering N (bypass context) s :=
  offering_gain hready trivial

theorem offering_constant {value : Float} (hready : s.ledger.Ready N context) :
    Offering N (constant context value) s :=
  builds_then (keeps_engine context) fun _ _ hst => offering_playback (hready.grow hst) (by simp)

theorem offering_signal {value : Drive} (hready : s.ledger.Ready N context)
    (hvalue : value.Offered s.ledger N) : Offering N (signal context value) s := by
  refine builds_bind (offering_constant hready) fun one t hst hone => ?_
  refine builds_bind (offering_gain (hready.grow hst) (hvalue.grow hst)) fun amount u htu hamount => ?_
  exact offering_inSeries (hone.grow htu) (by simpa using hamount)

theorem offering_scaled {factor : Drive} {node : Node} (hfactor : factor.Offered s.ledger N)
    (hnode : s.ledger.Offers N node) : Offering N (scaled factor node) s := by
  refine builds_bind (offering_gain hnode.ready hfactor) fun amount t hst hamount => ?_
  exact offering_inSeries (hnode.grow hst) (by simpa using hamount)

theorem offering_spanning {low high : Float} {node : Node} (hnode : s.ledger.Offers N node) :
    Offering N (spanning low high node) s := by
  have hrest {t : Studio} {fed : Node} (hst : s.ledger.Grows t.ledger)
      (hfed : t.ledger.Offers N fed) : Offering N (do
        let floor ← constant node.context low
        inParallel floor [← scaled (.fixed (high - low)) fed]) t := by
    refine builds_bind (offering_constant (hnode.ready.grow hst)) fun floor u htu hfloor => ?_
    refine builds_bind (offering_scaled trivial (hfed.grow htu)) fun span v huv hspan => ?_
    exact offering_inParallel (hfloor.grow huv) (by simpa using hspan)
  refine builds_then keeps_get fun _ t hst => ?_
  dsimp only
  split
  case isTrue =>
      refine builds_bind (offering_constant (hnode.ready.grow hst)) fun one u htu hone => ?_
      refine builds_bind (offering_inSeries hone ?_) fun fed v huv hfed => ?_
      · simpa using (hnode.grow hst).grow htu
      · exact hrest ((hst.trans htu).trans huv) hfed
  case isFalse =>
      exact builds_bind (offering_pure (hnode.grow hst)) fun fed u htu hfed =>
        hrest (hst.trans htu) hfed

theorem offering_oscillator {waveform : Waveform} {frequency : Drive} {detune : Option Drive}
    (hready : s.ledger.Ready N context) (hfrequency : frequency.Offered s.ledger N)
    (hdetune : ∀ drive ∈ detune, drive.Offered s.ledger N) :
    Offering N (oscillator context waveform frequency detune) s :=
  offering_ofKind hready (by simpa using ⟨hfrequency, hdetune⟩)

theorem offering_sine {frequency : Drive} (hready : s.ledger.Ready N context)
    (hfrequency : frequency.Offered s.ledger N) : Offering N (sine context frequency) s :=
  offering_oscillator hready hfrequency (by simp)

theorem offering_lfo {waveform : Waveform} {rate amplitude : Float}
    (hready : s.ledger.Ready N context) : Offering N (lfo context waveform rate amplitude) s :=
  builds_bind (offering_oscillator hready trivial (by simp)) fun _ _ _ htone =>
    offering_scaled trivial htone

theorem builds_partials {settings : BankSettings} {i : Nat} (ratios : List Float)
    (hready : s.ledger.Ready N context) :
    Builds N (partials context settings i ratios) s fun voices L =>
      ∀ node ∈ voices, L.Offers N node := by
  induction ratios generalizing i s with
  | nil => exact along_pure (by simp)
  | cons ratio rest ih =>
      refine builds_bind (offering_oscillator hready trivial (by simp)) fun tone t hst htone => ?_
      refine builds_bind (offering_gain (hready.grow hst) trivial) fun level u htu hlevel => ?_
      refine builds_bind (offering_inSeries (htone.grow htu) (by simpa using hlevel))
        fun voice v huv hvoice => ?_
      refine builds_bind (ih (((hready.grow hst).grow htu).grow huv)) fun voices w hvw hvoices => ?_
      refine along_pure fun node hnode => ?_
      rcases List.mem_cons.1 hnode with rfl | hnode
      · exact hvoice.grow hvw
      · exact hvoices node hnode

theorem offering_bank {ratios : List Float} {settings : BankSettings}
    (hready : s.ledger.Ready N context) : Offering N (bank context ratios settings) s := by
  refine builds_bind (builds_partials ratios hready) fun voices t hst hvoices => ?_
  cases voices with
  | nil => exact along_throw _
  | cons first rest =>
      refine builds_bind (offering_inParallel (hvoices first List.mem_cons_self)
        fun node hnode => hvoices node (List.mem_cons_of_mem _ hnode)) fun all u htu hall => ?_
      refine builds_bind (offering_gain ((hready.grow hst).grow htu) trivial)
        fun level v huv hlevel => ?_
      exact offering_inSeries (hall.grow huv) (by simpa using hlevel)

theorem offering_filter {type : FilterType} {frequency : Drive} {q detune : Option Drive}
    (hready : s.ledger.Ready N context) (hfrequency : frequency.Offered s.ledger N)
    (hq : ∀ drive ∈ q, drive.Offered s.ledger N)
    (hdetune : ∀ drive ∈ detune, drive.Offered s.ledger N) :
    Offering N (filter context type frequency q detune) s :=
  offering_ofKind hready (by simpa using ⟨hfrequency, hq, hdetune⟩)

theorem offering_filterOf {settings : FilterSettings} (hready : s.ledger.Ready N context) :
    Offering N (filterOf context settings) s :=
  offering_filter hready trivial (by simp [Drive.Offered]) (by simp [Drive.Offered])

theorem offering_percussive {attack decay : Option Float} (hready : s.ledger.Ready N context) :
    Offering N (percussive context attack decay) s :=
  builds_then (keeps_ofExcept _ _) fun _ _ hst => offering_shaper (hready.grow hst)

theorem offering_swell {attack hold decay high low : Float} (hready : s.ledger.Ready N context) :
    Offering N (swell context attack hold decay high low) s :=
  builds_then (keeps_ofExcept _ _) fun _ _ hst => offering_shaper (hready.grow hst)

theorem offering_adsr {settings : Adsr} (hready : s.ledger.Ready N context) :
    Offering N (adsr context settings) s :=
  builds_then (keeps_ofExcept _ _) fun _ _ hst =>
    builds_then (keeps_ofExcept _ _) fun _ _ htu => offering_shaper ((hready.grow hst).grow htu)

theorem offering_sweep {frequency octaves : Float} {settings : Adsr}
    (hready : s.ledger.Ready N context) :
    Offering N (sweep context frequency octaves settings) s :=
  builds_bind (offering_adsr hready) fun _ _ _ henvelope => offering_spanning henvelope

theorem offering_delay {time : Drive} (hready : s.ledger.Ready N context)
    (htime : time.Offered s.ledger N) : Offering N (delay context time) s :=
  offering_ofKind hready (by simpa using htime)

theorem offering_feedback {amount : Float} {node : Node} (hnode : s.ledger.Offers N node) :
    Offering N (feedback amount node) s := by
  refine builds_bind (offering_gain hnode.ready trivial) fun back t hst hback => ?_
  refine builds_then (keeps_connect node (.node back)) fun _ u htu => ?_
  refine builds_then (keeps_connect back (.node node)) fun _ v huv => ?_
  exact offering_wrap (((hnode.grow hst).grow htu).grow huv)
    (by simpa using (hback.grow htu).grow huv)

theorem offering_echo {time : Drive} {filter : Option Node} {amount : Float}
    (hready : s.ledger.Ready N context) (htime : time.Offered s.ledger N)
    (hfilter : ∀ node ∈ filter, s.ledger.Offers N node) :
    Offering N (echo context time filter amount) s := by
  refine builds_bind (offering_delay hready htime) fun line t hst hline => ?_
  have hcolor : Offering N (match filter with
      | some filter => pure filter
      | none => bypass context) t := by
    cases filter with
    | none => exact offering_bypass (hready.grow hst)
    | some filter => exact offering_pure ((hfilter filter rfl).grow hst)
  have hrest {u : Studio} {color : Node} (htu : t.ledger.Grows u.ledger)
      (hcolor : u.ledger.Offers N color) : Offering N (do
        let again ← inSeries color [← gain context (.fixed amount)]
        line.connect (.node again)
        again.connect (.node line)
        wrap line [again]) u := by
    refine builds_bind (offering_gain ((hready.grow hst).grow htu) trivial) fun level v huv hlevel => ?_
    refine builds_bind (offering_inSeries (hcolor.grow huv) (by simpa using hlevel))
      fun again w hvw hagain => ?_
    refine builds_then (keeps_connect line (.node again)) fun _ x hwx => ?_
    refine builds_then (keeps_connect again (.node line)) fun _ y hxy => ?_
    exact offering_wrap (hline.grow ((((htu.trans huv).trans hvw).trans hwx).trans hxy))
      (by simpa using (hagain.grow hwx).grow hxy)
  cases filter with
  | none => exact builds_bind hcolor fun color u htu h => hrest htu h
  | some filter => exact builds_bind hcolor fun color u htu h => hrest htu h

theorem offering_mix {effect : Node} {wet : Option Float} {normalize : Bool}
    (heffect : s.ledger.Offers N effect) : Offering N (mix effect wet normalize) s := by
  refine builds_bind (offering_gain heffect.ready trivial) fun level t hst hlevel => ?_
  refine builds_bind (offering_inSeries (heffect.grow hst) (by simpa using hlevel))
    fun wetPath u htu hwet => ?_
  refine builds_bind (offering_gain ((heffect.ready.grow hst).grow htu) trivial)
    fun dryPath v huv hdry => ?_
  exact offering_inParallel hdry (by simpa using hwet.grow huv)

theorem offering_tremolo {rate : Float} {waveform : Waveform} (hready : s.ledger.Ready N context) :
    Offering N (tremolo context rate waveform) s :=
  builds_bind (offering_oscillator hready trivial (by simp)) fun _ _ hst htone =>
    offering_gain (hready.grow hst) htone

theorem offering_convolver {impulse : Option Buffer} {normalize : Bool}
    (hready : s.ledger.Ready N context) : Offering N (convolver context impulse normalize) s := by
  unfold convolver
  exact builds_warned fun _ hst => offering_ofKind (hready.grow hst) (by simp)

theorem offering_room {duration : Float} {decay : Option Float} {backwards : Bool}
    (hready : s.ledger.Ready N context) : Offering N (room context duration decay backwards) s :=
  builds_then (keeps_engine context) fun _ _ hst => offering_convolver (hready.grow hst)

theorem offering_reverb {settings : ReverbSettings} (hready : s.ledger.Ready N context) :
    Offering N (reverb context settings) s :=
  builds_bind (offering_room hready) fun _ _ _ heffect => offering_mix heffect

end Node

-- A builder whose nodes are all on offer.
def Ledger.Stocks (L : Ledger) (N : Nat) (id : BuilderId) : Prop :=
  ∃ builder, L.builders[id]? = some builder ∧ L.Ready N builder.context ∧
    ∀ entry ∈ builder.memo, L.Offers N entry.2

theorem Ledger.Stocks.made {L M : Ledger} {id : BuilderId} (h : L.Stocks N id) (hLM : Made N L M) :
    M.Stocks N id := by
  induction hLM with
  | refl => exact h
  | @tail K M _ hKM ih =>
      obtain ⟨builder, hbuilder, hready, hmemo⟩ := ih
      have hgrows := hKM.grows
      replace hready := hready.grow hgrows
      replace hmemo := fun entry hentry => (hmemo entry hentry).grow hgrows
      have hsame (hbuilders : M.builders[id]? = K.builders[id]?) : M.Stocks N id :=
        ⟨builder, hbuilders.trans hbuilder, hready, hmemo⟩
      cases hKM with
      | builder c hc =>
          refine ⟨builder, ?_, hready, hmemo⟩
          rw [Array.getElem?_push, if_neg]
          · exact hbuilder
          · rintro rfl
            simp at hbuilder
      | memo b key node hnode =>
          by_cases hid : b = id
          · subst hid
            refine ⟨{ builder with memo := Keyed.insert key node builder.memo }, ?_, hready, ?_⟩
            · simp [Array.getElem?_modify, hbuilder]
            · intro entry hentry
              rcases Keyed.mem_insert hentry with rfl | hentry
              · exact hnode.grow hgrows
              · exact hmemo entry hentry
          · exact hsame (by simp [Array.getElem?_modify, hid])
      | openContext => exact hsame rfl
      | create => exact hsame rfl
      | request => exact hsame rfl
      | watch => exact hsame rfl
      | node => exact hsame rfl
      | source => exact hsame rfl
      | instrument => exact hsame rfl

namespace Builder

variable {b : BuilderId}

theorem builds_next {α β : Type} {act : Act β} {next : β → Act α} {mid : β → Ledger → Prop}
    {ok : α → Ledger → Prop} (hb : s.ledger.Stocks N b) (h : Builds N act s mid)
    (hnext : ∀ a t, s.ledger.Grows t.ledger → t.ledger.Stocks N b → mid a t.ledger →
      Builds N (next a) t ok) : Builds N (act >>= next) s ok :=
  along_bind h fun a t hst ha => hnext a t (Made.grows hst) (hb.made hst) ha

theorem builds_state (hb : s.ledger.Stocks N b) : Builds N (state b) s fun builder L =>
    L.Ready N builder.context ∧ ∀ entry ∈ builder.memo, L.Offers N entry.2 := by
  obtain ⟨builder, hbuilder, hready, hmemo⟩ := hb
  have hstate : (s.builders[b]?).getD ⟨0, []⟩ = builder := by
    rw [show s.builders[b]? = some builder from hbuilder]
    rfl
  unfold Builds Along state
  simp only [ends_bind, ends_get, ends_pure, hstate]
  exact ⟨refl_of (Building N) s, hready, hmemo⟩

theorem builds_memoize {key : String} {node : Node} (hnode : s.ledger.Offers N node) :
    Builds N (memoize b key node) s fun _ _ => True := by
  unfold Builds Along memoize
  rw [ends_modify]
  exact ⟨.single (.memo b key node hnode), trivial⟩

mutual
theorem offering_build : ∀ (patch : Patch) {s : Studio}, s.ledger.Stocks N b →
    Offering N (build b patch) s
  | .connect route patches, s, hb => by
      rw [build]
      refine builds_next hb (builds_state hb) fun builder t hst hb hbuilder => ?_
      refine builds_bind (builds_buildAll patches hb) fun nodes u htu hnodes => ?_
      cases nodes with
      | nil => exact Node.offering_bypass (hbuilder.1.grow htu)
      | cons first rest =>
          have hfirst := hnodes first List.mem_cons_self
          have hrest := fun node hnode => hnodes node (List.mem_cons_of_mem first hnode)
          cases route with
          | serial => exact Node.offering_inSeries hfirst hrest
          | parallel => exact Node.offering_inParallel hfirst hrest
  | .gain level, s, hb => by
      rw [build]
      refine builds_next hb (builds_state hb) fun builder t hst hb hbuilder => ?_
      refine builds_bind (builds_drive level hb) fun level u htu hlevel => ?_
      exact Node.offering_gain (hbuilder.1.grow htu) hlevel
  | .oscillator waveform frequency detune, s, hb => by
      rw [build]
      refine builds_next hb (builds_state hb) fun builder t hst hb hbuilder => ?_
      refine builds_next hb (builds_drive frequency hb) fun frequency u htu hb hfrequency => ?_
      refine builds_bind (builds_driveIfGiven detune hb) fun detune v huv hdetune => ?_
      exact Node.offering_oscillator ((hbuilder.1.grow htu).grow huv) (hfrequency.grow huv) hdetune
  | .biquadFilter type frequency q detune, s, hb => by
      rw [build]
      refine builds_next hb (builds_state hb) fun builder t hst hb hbuilder => ?_
      refine builds_next hb (builds_drive frequency hb) fun frequency u htu hb hfrequency => ?_
      refine builds_next hb (builds_driveIfGiven q hb) fun q v huv hb hq => ?_
      refine builds_bind (builds_driveIfGiven detune hb) fun detune w hvw hdetune => ?_
      exact Node.offering_filter (((hbuilder.1.grow htu).grow huv).grow hvw)
        ((hfrequency.grow huv).grow hvw) (fun drive hdrive => (hq drive hdrive).grow hvw) hdetune
  | .envelope attack release, s, hb => by
      rw [build]
      refine builds_bind (builds_state hb) fun builder t hst hbuilder => ?_
      exact Node.offering_shaper hbuilder.1
  | .delay time feedback, s, hb => by
      rw [build]
      refine builds_next hb (builds_state hb) fun builder t hst hb hbuilder => ?_
      refine builds_bind (builds_drive time hb) fun time u htu htime => ?_
      cases feedback with
      | none => exact Node.offering_delay (hbuilder.1.grow htu) htime
      | some amount => exact Node.offering_echo (hbuilder.1.grow htu) htime (by simp)
  | .constant value, s, hb => by
      rw [build]
      refine builds_bind (builds_state hb) fun builder t hst hbuilder => ?_
      exact Node.offering_constant hbuilder.1
  | .noise duration looping, s, hb => by
      rw [build]
      refine builds_bind (builds_state hb) fun builder t hst hbuilder => ?_
      exact Node.offering_noise hbuilder.1
  | .convolver duration decay reverse, s, hb => by
      rw [build]
      refine builds_bind (builds_state hb) fun builder t hst hbuilder => ?_
      exact Node.offering_room hbuilder.1
  | .memoize id patch, s, hb => by
      rw [build]
      refine builds_next hb (builds_state hb) fun _ t hst hb _ => ?_
      refine along_check fun _ => ?_
      change Offering N _ t
      refine builds_next hb (builds_state hb) fun builder u htu hb hbuilder => ?_
      split
      case h_1 node hnode =>
          obtain ⟨entry, hentry, rfl⟩ := Keyed.mem_of_get? hnode
          exact offering_pure (hbuilder.2 entry hentry)
      case h_2 =>
          refine builds_bind (offering_build patch hb) fun node v huv hnode => ?_
          refine builds_bind (builds_memoize hnode) fun _ w hvw _ => ?_
          exact offering_pure (hnode.grow hvw)
  | .destination, s, hb => by
      rw [build]
      refine builds_bind (builds_state hb) fun builder t hst hbuilder => ?_
      exact Node.offering_destination hbuilder.1

theorem builds_buildAll : ∀ (patches : List Patch) {s : Studio}, s.ledger.Stocks N b →
    Builds N (buildAll b patches) s fun nodes L => ∀ node ∈ nodes, L.Offers N node
  | [], s, _ => along_pure (by simp)
  | patch :: rest, s, hb => by
      rw [buildAll]
      refine builds_next hb (offering_build patch hb) fun node t hst hb hnode => ?_
      refine builds_bind (builds_buildAll rest hb) fun nodes u htu hnodes => along_pure ?_
      simpa using ⟨hnode.grow htu, hnodes⟩

theorem builds_drive : ∀ (control : Control) {s : Studio}, s.ledger.Stocks N b →
    Builds N (drive b control) s fun drive L => drive.Offered L N
  | .value x, s, _ => along_pure trivial
  | .node patch, s, hb => by
      rw [drive]
      exact builds_bind (offering_build patch hb) fun node t hst hnode => along_pure hnode

theorem builds_driveIfGiven : ∀ (control : Option Control) {s : Studio}, s.ledger.Stocks N b →
    Builds N (driveIfGiven b control) s fun drive? L => ∀ drive ∈ drive?, drive.Offered L N
  | none, s, _ => along_pure (by simp)
  | some control, s, hb => by
      rw [driveIfGiven]
      exact builds_bind (builds_drive control hb) fun drive t hst hdrive =>
        along_pure (by simpa using hdrive)
end

end Builder

theorem keeps_reading {α : Type} (read : EStateM Error (List Warning) α) :
    Keeps (Building N) (Act.reading read) := by
  intro s
  unfold Along Ends Act.reading
  cases read s.warnings with
  | ok a warnings => exact ⟨refl_of (Made N) s.ledger, trivial⟩
  | error e warnings => exact refl_of (Made N) s.ledger

-- A builder of its own knows no older node.
theorem Patch.offering_build {context : ContextId} {source : String}
    (hready : s.ledger.Ready N context) : Offering N (Patch.build context source) s := by
  have hnew {t : Studio} (hready : t.ledger.Ready N context) :
      Builds N (Builder.new context) t fun id L => L.Stocks N id := by
    unfold Builds Along Builder.new
    rw [ends_modifyGet]
    have hmakes := Makes.builder (N := N) (L := t.ledger) context hready.opened
    refine ⟨.single hmakes, ⟨context, []⟩, ?_, hready.grow hmakes.grows, by simp⟩
    simp [Studio.ledger]
  refine builds_then (keeps_reading _) fun patch t hst => ?_
  refine builds_bind (hnew (hready.grow hst)) fun id u htu hid => ?_
  exact Builder.offering_build patch hid

theorem SweptFilter.builds_build {filter : SweptFilter} {context : ContextId} {frequency : Float}
    (hready : s.ledger.Ready N context) : Builds N (filter.build context frequency) s
      fun node? L => ∀ node ∈ node?, L.Offers N node := by
  have hrest {t : Studio} {drive : Drive} (hst : s.ledger.Grows t.ledger)
      (hdrive : drive.Offered t.ledger N) : Builds N (do
        let node ← Node.filter context filter.type drive (filter.q.map .fixed) none
        return some node) t fun node? L => ∀ node ∈ node?, L.Offers N node := by
    have hq : ∀ drive ∈ filter.q.map Drive.fixed, drive.Offered t.ledger N := by
      simp [Drive.Offered]
    refine builds_bind (Node.offering_filter (hready.grow hst) hdrive hq (by simp)) ?_
    exact fun node u _ hnode => along_pure (by simpa using hnode)
  unfold SweptFilter.build
  split
  · exact along_pure (by simp)
  · dsimp only
    split
    · rename_i cutoff _ _ envelope _
      have hsweep : Builds N (Drive.source <$> Node.sweep context cutoff filter.octaves envelope) s
          fun drive L => drive.Offered L N :=
        along_map (Node.offering_sweep hready) fun _ _ h => h
      exact builds_bind hsweep fun drive t hst hdrive => hrest hst hdrive
    · rename_i cutoff _ _ _
      have hfixed : Builds N (pure (Drive.fixed cutoff)) s fun drive L => drive.Offered L N :=
        along_pure trivial
      exact builds_bind hfixed fun drive t hst hdrive => hrest hst hdrive

namespace Node

variable {context : ContextId}

theorem offering_subtractive {settings : SubtractiveSettings} {source : Option Node}
    (hready : s.ledger.Ready N context) (hsource : ∀ node ∈ source, s.ledger.Offers N node) :
    Offering N (subtractive context settings source) s := by
  have hrest {t : Studio} {source : Node} (hst : s.ledger.Grows t.ledger)
      (hsource : t.ledger.Offers N source) : Offering N (do
        let envelope ← adsr context settings.envelope
        let filter ← settings.filter.build context settings.frequency
        let level ← if settings.gain != 1 then some <$> gain context (.fixed settings.gain)
          else pure none
        inSeries source ([envelope] ++ filter.toList ++ level.toList)) t := by
    have hready := hready.grow hst
    refine builds_bind (offering_adsr hready) fun envelope u htu henvelope => ?_
    refine builds_bind (SweptFilter.builds_build (hready.grow htu)) fun filter v huv hfilter => ?_
    have hlast {w : Studio} {level : Option Node} (hvw : v.ledger.Grows w.ledger)
        (hlevel : ∀ node ∈ level, w.ledger.Offers N node) :
        Offering N (inSeries source ([envelope] ++ filter.toList ++ level.toList)) w := by
      refine offering_inSeries (((hsource.grow htu).grow huv).grow hvw) fun node hnode => ?_
      simp only [List.mem_append, List.mem_singleton, Option.mem_toList] at hnode
      rcases hnode with (rfl | hnode) | hnode
      · exact (henvelope.grow huv).grow hvw
      · exact (hfilter node hnode).grow hvw
      · exact hlevel node hnode
    dsimp only
    split
    · have hgain : Builds N (some <$> gain context (.fixed settings.gain)) v fun level L =>
          ∀ node ∈ level, L.Offers N node :=
        along_map (offering_gain ((hready.grow htu).grow huv) trivial) fun _ _ h => by simpa using h
      exact builds_bind hgain fun level w hvw hlevel => hlast hvw hlevel
    · have hnone : Builds N (pure none) v fun (level : Option Node) L =>
          ∀ node ∈ level, L.Offers N node := along_pure (by simp)
      exact builds_bind hnone fun level w hvw hlevel => hlast hvw hlevel
  unfold subtractive
  dsimp only
  cases source with
  | none =>
      have htone : Offering N (oscillator context settings.waveform (.fixed settings.frequency) none)
          s := offering_oscillator hready trivial (by simp)
      exact builds_bind htone fun source t hst hsource => hrest hst hsource
  | some source =>
      exact builds_bind (offering_pure (hsource source rfl)) fun source t hst hsource =>
        hrest hst hsource

theorem offering_organ {registration : Registration} {frequency : Float}
    (hready : s.ledger.Ready N context) : Offering N (organ context registration frequency) s :=
  offering_bank hready

theorem offering_pluck {frequency : Float} (hready : s.ledger.Ready N context) :
    Offering N (pluck context frequency) s := by
  refine builds_bind (offering_sine hready trivial) fun tone t hst htone => ?_
  refine builds_bind (offering_percussive (hready.grow hst)) fun envelope u htu henvelope => ?_
  exact offering_inSeries (htone.grow htu) (by simpa using henvelope)

theorem offering_sampled {font : Soundfont} {voice : SampleVoice} {note : Nat}
    (hready : s.ledger.Ready N context) : Offering N (sampled context font voice note) s := by
  unfold sampled
  refine builds_warned fun t hst => ?_
  refine builds_bind (offering_playback (hready.grow hst) (by simp)) fun source u htu hsource => ?_
  have hready := (hready.grow hst).grow htu
  refine builds_bind (offering_filterOf hready) fun filter v huv hfilter => ?_
  refine builds_bind (offering_adsr (hready.grow huv)) fun envelope w hvw henvelope => ?_
  refine builds_bind (offering_gain ((hready.grow huv).grow hvw) trivial) fun level x hwx hlevel => ?_
  refine offering_inSeries (((hsource.grow huv).grow hvw).grow hwx) ?_
  simpa using ⟨(hfilter.grow hvw).grow hwx, henvelope.grow hwx, hlevel⟩

end Node

theorem Recipe.offering_build {recipe : Recipe} {context : ContextId} {value : Float}
    (hready : s.ledger.Ready N context) : Offering N (recipe.build context value) s := by
  cases recipe with
  | sine => exact Node.offering_sine hready trivial
  | pluck => exact Node.offering_pluck hready
  | adsr settings =>
      refine builds_bind (Node.offering_sine hready trivial) fun tone t hst htone => ?_
      refine builds_bind (Node.offering_adsr (hready.grow hst)) fun envelope u htu henvelope => ?_
      exact Node.offering_inSeries (htone.grow htu) (by simpa using henvelope)
  | subtractive settings =>
      have hnone : ∀ node ∈ (none : Option Node), s.ledger.Offers N node := by simp
      exact Node.offering_subtractive hready hnone
  | organ registration => exact Node.offering_organ hready
  | patch source => exact Patch.offering_build hready
  | sampler font voice => exact Node.offering_sampled hready

theorem Plate.builds_install {context : ContextId} {name : Option String}
    (hready : s.ledger.Ready N context) : Builds N (Plate.install context name) s
      fun plate L => L.Offers N plate.node :=
  builds_bind (Node.offering_convolver hready) fun _ _ _ hnode => along_pure hnode

end Patchbay
