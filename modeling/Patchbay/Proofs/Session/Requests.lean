import Patchbay.Proofs.Lifetime.StartReach
import Patchbay.Proofs.Voices.Entry

namespace Patchbay

open Act

section Unmoved

variable {R : Studio → Studio → Prop} (h : ∀ s t, Unmoved s t → R s t)
include h

theorem keeps_aside {f : Studio → Studio} (hnodes : ∀ s, (f s).nodes = s.nodes)
    (hengines : ∀ s, (f s).engines = s.engines) : Keeps R (modify f) :=
  keeps_modify fun s => h s _ (.of_eq (hnodes s) (hengines s))

theorem keeps_readAside {α : Type} (read : EStateM Error (List Warning) α) :
    Keeps R (reading read) := by
  intro s
  unfold Along Ends reading
  cases read s.warnings with
  | ok a warnings => exact ⟨h s _ (.of_eq rfl rfl), trivial⟩
  | error e warnings => exact h s _ (.of_eq rfl rfl)

theorem keeps_openBuilder (context : ContextId) : Keeps R (Builder.new context) := by
  intro s
  unfold Along Builder.new
  rw [ends_modifyGet]
  exact ⟨h s _ (.of_eq rfl rfl), trivial⟩

end Unmoved

theorem along_openContext {R : Studio → Studio → Prop} {s : Studio} {rate : Float}
    (h : R s { s with engines := s.engines.push (.new rate) }) :
    Along R (Act.openContext rate) s fun _ _ => True := by
  unfold Along Act.openContext
  rw [ends_modifyGet]
  exact ⟨h, trivial⟩

-- Holds across whatever nodes and instruments do.
class Performs (R : Studio → Studio → Prop) : Prop extends Assembles R, Connects R, Stops R where
  unmoved : ∀ s t, Unmoved s t → R s t
  openContext : ∀ (s : Studio) rate, s.ledger.Sound 0 →
    Along R (Act.openContext rate) s fun _ _ => True
  start : ∀ (s : Studio) (node : Node) time, s.ledger.Sound 0 → s.ledger.Knows node →
    Along R (node.start time) s fun _ _ => True
  disconnect : ∀ (s : Studio) (node : Node), s.ledger.Sound 0 → s.ledger.Knows node →
    Along R node.disconnect s fun _ _ => True

-- What making, wiring and stopping keep to all comes under one finer relation.
theorem Performs.of_finer {Q R : Studio → Studio → Prop} [Composes Q] [Stops Q]
    [IsPreorder Studio R] (h : ∀ s t, Q s t → R s t) (hunmoved : ∀ s t, Unmoved s t → Q s t)
    (hopen : ∀ (s : Studio) rate, s.ledger.Sound 0 →
      Along R (Act.openContext rate) s fun _ _ => True)
    (hstart : ∀ (s : Studio) (node : Node) time, s.ledger.Sound 0 → s.ledger.Knows node →
      Along R (node.start time) s fun _ _ => True)
    (hdisconnect : ∀ (s : Studio) (node : Node), s.ledger.Sound 0 → s.ledger.Knows node →
      Along R node.disconnect s fun _ _ => True) : Performs R where
  __ := Drafts.of_finer h
  built builder patch := (Assembles.built builder patch).mono h
  __ := Connects.of_finer h
  schedule context host param event := (Schedules.schedule context host param event).mono h
  stop context host time := (Stops.stop context host time).mono h
  unmoved s t hst := h s t (hunmoved s t hst)
  openContext := hopen
  start := hstart
  disconnect := hdisconnect

-- Holds across whatever nodes and instruments do with builders at rest, as long as they start and
-- stop nodes at times that it admits.
class Paces (R : Studio → Studio → Prop) (admits : outParam (Studio → Float → Prop)) : Prop
    extends Drafts R, Connects R where
  untouched : ∀ s t, Untouched s t → R s t
  openContext : ∀ (s : Studio) rate, s.ledger.Sound 0 →
    Along R (Act.openContext rate) s fun _ _ => True
  curve : ∀ (contour : Contour) context host param time,
    Keeps R (contour.schedule context host param time)
  start : ∀ (s : Studio) (node : Node) time, s.ledger.Sound 0 → s.ledger.Knows node →
    admits s time → Along R (node.start time) s fun _ _ => True
  stop : ∀ (s : Studio) (node : Node) time, s.ledger.Sound 0 → s.ledger.Knows node →
    admits s time → Along R (node.stop time) s fun _ _ => True
  disconnect : ∀ (s : Studio) (node : Node), s.ledger.Sound 0 → s.ledger.Knows node →
    Along R node.disconnect s fun _ _ => True
  lasting : ∀ s t time, R s t → admits s time → admits t time
  present : ∀ (s : Studio) c, c < s.engines.size →
    admits s (s.now c) ∧ admits s (Time.resolve none none (s.now c))
  after : ∀ s time duration, admits s time → 0 < duration → admits s (time + duration)

instance {R : Studio → Studio → Prop} [Performs R] : Paces R fun _ _ => True where
  untouched s t h := Performs.unmoved s t h.toUnmoved
  openContext := Performs.openContext
  curve contour _ _ _ _ := contour.keeps_schedule _ _ _ _
  start s node time hs hnode _ := Performs.start s node time hs hnode
  stop s node time _ _ _ := node.keeps_stop time s
  disconnect := Performs.disconnect
  lasting _ _ _ _ _ := trivial
  present _ _ _ := ⟨trivial, trivial⟩
  after _ _ _ _ _ := trivial

-- At whatever times, if it does not matter when nodes are started and stopped.
theorem Paces.of_finer {Q R : Studio → Studio → Prop} [Wires Q] [Drafts R]
    (h : ∀ s t, Q s t → R s t) (huntouched : ∀ s t, Untouched s t → Q s t)
    (hopen : ∀ (s : Studio) rate, s.ledger.Sound 0 →
      Along R (Act.openContext rate) s fun _ _ => True)
    (hdisconnect : ∀ node : Node, Keeps Q node.disconnect) : Paces R fun _ _ => True where
  __ := (inferInstance : Drafts R)
  __ := Connects.of_finer h
  untouched s t hst := h s t (huntouched s t hst)
  openContext := hopen
  curve contour context host param time := (contour.keeps_schedule context host param time).mono h
  start s node time _ _ _ := (node.keeps_start time).mono h s
  stop s node time _ _ _ := (node.keeps_stop time).mono h s
  disconnect s node _ _ := (hdisconnect node).mono h s
  lasting _ _ _ _ _ := trivial
  present _ _ _ := ⟨trivial, trivial⟩
  after _ _ _ _ _ := trivial

-- Besides, a sound ledger only grows, and stays sound.
def Soundly (R : Studio → Studio → Prop) (s t : Studio) : Prop :=
  s.ledger.Sound 0 → s.ledger.Grows t.ledger ∧ t.ledger.Sound 0 ∧ R s t

instance {R : Studio → Studio → Prop} [IsPreorder Studio R] : IsPreorder Studio (Soundly R) where
  refl s hs := ⟨.refl _, hs, refl_of R s⟩
  trans _ _ _ h h' hs := by
    obtain ⟨hgrows, ht, hR⟩ := h hs
    obtain ⟨hgrows', hu, hR'⟩ := h' ht
    exact ⟨hgrows.trans hgrows', hu, trans_of R hR hR'⟩

abbrev Performing (R : Studio → Studio → Prop) {α : Type} (act : Act α) (s : Studio) : Prop :=
  Along (Soundly R) act s fun _ _ => True

theorem Instrument.keeps_nodeFor {R : Studio → Studio → Prop} [Drafts R] (inst : Instrument)
    (play : Play) : Keeps R (inst.nodeFor play) := by
  cases play with
  | node node => exact keeps_pure node
  | value x =>
      unfold nodeFor
      dsimp only
      split
      · exact Recipe.keeps_build _ x
      · exact keeps_throw _

section Paces

variable {R : Studio → Studio → Prop} {admits : Studio → Float → Prop} {s : Studio} {α β : Type}

-- Only what starts from a sound ledger counts.
theorem keeps_soundly {act : Act α} (h : ∀ s, s.ledger.Sound 0 → Performing R act s) :
    Keeps (Soundly R) act :=
  keeps_where (fun _ _ hvoid hs => absurd hs hvoid) h

theorem soundly_of_pays {act : Act α} {ok ok' : α → Studio → Prop}
    (hpays : Along (Pays 0 []) act s ok) (h : Along R act s ok') :
    Along (Soundly R) act s ok :=
  Ends.mono (Ends.and hpays h)
    (fun _ _ ht => ⟨fun hs => ⟨ht.1.1.grows, ht.1.1.sound hs, ht.2.1⟩, ht.1.2⟩)
    fun _ _ ht hs => ⟨ht.1.grows, ht.1.sound hs, ht.2⟩

theorem knows_of_voice {k : InstrumentId} {voice : Voice} (hs : s.ledger.Sound 0)
    (hvoice : voice ∈ ((s.instruments[k]?).getD (.new 0)).voices) : s.ledger.Knows voice.node := by
  cases hinst : s.instruments[k]? with
  | none => simp [hinst, Instrument.new] at hvoice
  | some inst =>
      have hroster : s.ledger.roster k = some inst.roster := by simp [Studio.ledger, hinst]
      have hmem : voice ∈ inst.voices := by simpa [hinst] using hvoice
      exact (hs.roster k _ hroster).voices (voice.node, voice.id) (List.mem_map_of_mem hmem)

theorem knows_of_excess {k : InstrumentId} {voice : Voice} (hs : s.ledger.Sound 0)
    (hvoice : voice ∈ ((s.instruments[k]?).getD (.new 0)).excess) : s.ledger.Knows voice.node := by
  refine knows_of_voice (k := k) hs ?_
  unfold Instrument.excess at hvoice
  split at hvoice
  case isTrue => cases hvoice
  case isFalse => exact List.mem_of_mem_filter (List.mem_of_mem_take hvoice)

-- The time that these come to is admitted on every clock, now and later.
def Punctual (R : Studio → Studio → Prop) (admits : Studio → Float → Prop) (s : Studio)
    (time delay : Option Float) : Prop :=
  ∀ t, R s t → ∀ c < t.engines.size, admits t (Time.resolve time delay (t.now c))

variable [hpaces : Paces R admits]
include hpaces

theorem performing_modify {f : Studio → Studio}
    (hgrows : s.ledger.Grows (f s).ledger) (hsound : s.ledger.Sound 0 → (f s).ledger.Sound 0)
    (huntouched : Untouched s (f s)) : Performing R (modify f) s :=
  along_modify fun hs => ⟨hgrows, hsound hs, Paces.untouched s _ huntouched⟩

-- What the ledger does not show.
theorem performing_aside {f : Studio → Studio} (hledger : (f s).ledger = s.ledger)
    (huntouched : Untouched s (f s)) : Performing R (modify f) s :=
  performing_modify (hledger ▸ .refl _) (fun hs => hledger ▸ hs) huntouched

instance : Connects (Soundly R) where
  connect context source target s :=
    soundly_of_pays (Connects.connect context source target s)
      (Connects.connect context source target s)
  setParam context host param x s :=
    soundly_of_pays (Connects.setParam context host param x s)
      (Connects.setParam context host param x s)
  setBuffer context host s :=
    soundly_of_pays (Connects.setBuffer context host s) (Connects.setBuffer context host s)
  connected id connected s :=
    soundly_of_pays (Connects.connected id connected s) (Connects.connected id connected s)

theorem performs_changeInstrument (k : InstrumentId) {f : Instrument → Instrument}
    {g : Roster → Roster} (hf : ∀ inst, (f inst).roster = g inst.roster)
    (hg : ∀ r : Roster, r.Grows (g r))
    (hmanned : ∀ L : Ledger, ∀ r, L.Manned r → L.Manned (g r)) :
    Keeps (Soundly R) (changeInstrument k f) := by
  intro s
  have hledger : ({ s with instruments := s.instruments.modify k f } : Studio).ledger =
      s.ledger.setRoster k g := s.ledger_changeInstrument hf
  refine performing_modify ?_ (fun hs => ?_) (.of_eq rfl rfl rfl)
  · rw [hledger]
    exact Ledger.grows_setRoster _ k hg
  · rw [hledger]
    exact hs.setRoster k hg (hmanned _)

theorem performs_changeInstrument_eq (k : InstrumentId) {f : Instrument → Instrument}
    (hf : ∀ inst, (f inst).roster = inst.roster) : Keeps (Soundly R) (changeInstrument k f) :=
  fun s => performing_aside (s.ledger_changeInstrument_eq k hf) (.of_eq rfl rfl rfl)

theorem performs_hear {notice : Notice} (h : notice.called? = none) :
    Keeps (Soundly R) (hear notice) :=
  fun s => performing_aside (s.ledger_hear h) (.of_eq rfl rfl rfl)

theorem performs_warn (warning : Warning) : Keeps (Soundly R) (warn warning) :=
  fun _ => performing_aside rfl (.of_eq rfl rfl rfl)

theorem performing_start {node : Node} {time : Float} (hs : s.ledger.Sound 0)
    (hnode : s.ledger.Knows node) (htime : admits s time) : Performing R (node.start time) s :=
  soundly_of_pays (node.keeps_start time s) (Paces.start s node time hs hnode htime)

theorem performing_stop {node : Node} {time : Float} (hs : s.ledger.Sound 0)
    (hnode : s.ledger.Knows node) (htime : admits s time) : Performing R (node.stop time) s :=
  soundly_of_pays (node.keeps_stop time s) (Paces.stop s node time hs hnode htime)

theorem performing_disconnect {node : Node} (hs : s.ledger.Sound 0) (hnode : s.ledger.Knows node) :
    Performing R node.disconnect s :=
  Ends.mono (Ends.and (Node.settles_disconnect hs hnode) (Paces.disconnect s node hs hnode))
    (fun _ _ ht => ⟨fun hs => ⟨ht.1.grows, ht.1.sound hs, ht.2.1⟩, trivial⟩) fun _ _ ht => ht.1.elim

-- A new listener that the node may have.
theorem performing_listen {node : Node} {listener : Listener} (hnode : s.ledger.Knows node)
    (heeds : s.ledger.Sound 0 → s.ledger.Heeds 0 node.id listener) :
    Performing R (changeNode node.id fun state =>
      { state with listeners := state.listeners ++ [listener] }) s := by
  have hledger := s.ledger_changeNode (Studio.lt_of_knows hnode) (g := .listen listener)
    (f := fun state => { state with listeners := state.listeners ++ [listener] }) fun _ => rfl
  refine performing_modify ?_ (fun hs => ?_) (.of_change _ fun _ => rfl)
  · rw [hledger]
    exact Ledger.grows_setFate _ _ (Fate.grows_listen _ _)
  · rw [hledger]
    exact hs.listen (heeds hs)

theorem performing_forM {items : List β} {act : β → Act PUnit} (hs : s.ledger.Sound 0)
    (h : ∀ b ∈ items, ∀ t, s.ledger.Grows t.ledger → t.ledger.Sound 0 → Performing R (act b) t) :
    Performing R (items.forM act) s := by
  induction items generalizing s with
  | nil => exact along_pure trivial
  | cons b rest ih =>
      refine along_bind (h b List.mem_cons_self s (.refl _) hs) fun _ t hst _ => ?_
      obtain ⟨hgrows, ht, -⟩ := hst hs
      exact ih ht fun b' hb' u htu hu => h b' (List.mem_cons_of_mem _ hb') u (hgrows.trans htu) hu

theorem performs_markStopped (k : InstrumentId) (voice : VoiceId) :
    Keeps (Soundly R) (changeInstrument k (·.markStopped voice)) :=
  performs_changeInstrument_eq k fun i => i.roster_markStopped voice

-- Each at a time that is admitted when it is its turn.
theorem performing_stopEach (k : InstrumentId) {timeFor : Node → Act Float} {voices : List Voice}
    (hs : s.ledger.Sound 0) (hknown : ∀ voice ∈ voices, s.ledger.Knows voice.node)
    (htime : ∀ t, R s t → ∀ voice ∈ voices, t.ledger.Formed voice.node →
      ∃ time, timeFor voice.node t = .ok time t ∧ admits t time) :
    Performing R (Instrument.stopEach k timeFor voices) s := by
  induction voices generalizing s with
  | nil => exact along_pure trivial
  | cons voice rest ih =>
      have hnode := hknown voice List.mem_cons_self
      obtain ⟨time, hact, hadmits⟩ := htime s (refl_of R s) voice List.mem_cons_self (hs.formed hnode)
      have htimed : Along (Soundly R) (timeFor voice.node) s fun x t => x = time ∧ t = s :=
        ends_of_eq hact ⟨refl_of (Soundly R) s, rfl, rfl⟩
      refine along_bind htimed fun _ _ _ ht => ?_
      obtain ⟨rfl, rfl⟩ := ht
      refine along_bind (performing_stop hs hnode hadmits) fun _ t hst _ => ?_
      obtain ⟨hgrows, ht, hR⟩ := hst hs
      refine along_bind (performs_markStopped k voice.id t) fun _ u htu _ => ?_
      obtain ⟨hgrows', hu, hR'⟩ := htu ht
      refine ih hu (fun other hother => ?_) fun v hv other hother => ?_
      · exact ((hknown other (List.mem_cons_of_mem _ hother)).grow hgrows).grow hgrows'
      · exact htime v (trans_of R (trans_of R hR hR') hv) other (List.mem_cons_of_mem _ hother)

theorem punctual_now : Punctual R admits s none none :=
  fun t _ c hc => (Paces.present (R := R) t c hc).2

theorem performing_stopVoices (k : InstrumentId) {ids : Option (List VoiceId)}
    {time delay : Option Float} (hs : s.ledger.Sound 0) (htime : Punctual R admits s time delay) :
    Performing R (Instrument.stop k ids time delay) s := by
  refine along_instrument (performing_stopEach k hs (fun voice hvoice => ?_) ?_)
  · refine knows_of_voice (k := k) hs ?_
    cases ids with
    | none => exact hvoice
    | some ids =>
        obtain ⟨id, -, hfound⟩ := List.mem_filterMap.1 hvoice
        exact List.mem_of_find?_eq_some hfound
  · exact fun t hst voice _ hformed => ⟨_, rfl, htime t hst _ hformed.opened⟩

theorem performing_steal (k : InstrumentId) {time : Float} (hs : s.ledger.Sound 0)
    (htime : admits s time) : Performing R (Instrument.steal k time) s := by
  refine along_instrument (performing_stopEach k hs (fun voice hvoice => ?_) ?_)
  · exact knows_of_excess hs hvoice
  · exact fun t hst _ _ _ => ⟨time, rfl, Paces.lasting s t time hst htime⟩

section Voices

variable {emit : Instrument.Emit} (hemit : ∀ k event, Keeps (Soundly R) (emit k event))
variable (k : InstrumentId)

include hemit

theorem performs_countVoices : Keeps (Soundly R) (Instrument.countVoices emit k) :=
  keeps_bind (keeps_instrument k) fun _ => hemit k _

theorem performs_remove (id : VoiceId) : Keeps (Soundly R) (Instrument.remove emit k id) := by
  refine keeps_soundly fun s hs => along_instrument ?_
  split
  case h_1 => exact along_pure trivial
  case h_2 voice hvoice =>
      obtain ⟨inst, hinst, hfound⟩ := Studio.instrument_of_voice hvoice
      have hroster : s.ledger.roster k = some inst.roster := by simp [Studio.ledger, hinst]
      have hknown : s.ledger.Knows voice.node :=
        (hs.roster k _ hroster).voices (voice.node, voice.id)
          (List.mem_map_of_mem (List.mem_of_find?_eq_some hfound))
      have herase : Keeps (Soundly R) (changeInstrument k (·.erase id)) :=
        performs_changeInstrument k (fun i => i.roster_erase id) (Roster.grows_release id)
          fun L r hr => ⟨hr.opened, hr.played, fun v hv => hr.voices v (List.mem_of_mem_filter hv)⟩
      refine along_bind (herase s) fun _ t hst _ => ?_
      obtain ⟨hgrows, ht, -⟩ := hst hs
      have hcut : Performing R (tryCatch voice.node.disconnect
          fun e => warn (.stuckVoice id e.message)) t :=
        along_catch (performing_disconnect ht (hknown.grow hgrows)) fun _ u _ => performs_warn _ u
      refine along_bind hcut fun _ u _ _ => ?_
      exact (keeps_bind (hemit k _) fun _ => performs_countVoices hemit k) u

theorem performing_track {node : Node} (hs : s.ledger.Sound 0) (hnode : s.ledger.Knows node) :
    Performing R (Instrument.track emit k node) s := by
  refine along_instrument ?_
  have hregister : Performing R (changeInstrument k (·.register node)) s := by
    have hledger : ({ s with instruments := s.instruments.modify k (·.register node) } :
        Studio).ledger = s.ledger.setRoster k (.play node) :=
      s.ledger_changeInstrument fun i => i.roster_register node
    refine performing_modify ?_ (fun hs => ?_) (.of_eq rfl rfl rfl)
    · rw [hledger]
      exact Ledger.grows_setRoster _ k (Roster.grows_play node)
    · rw [hledger]
      exact hs.play k hnode
  refine along_bind hregister fun _ t hst _ => ?_
  have hvoice : Performing R (changeNode node.id fun state =>
      { state with voice := some ((s.instruments[k]?).getD (.new 0)).nextId }) t :=
    performing_aside (t.ledger_changeNode_eq _ fun _ => rfl) (.of_change _ fun _ => rfl)
  refine along_bind hvoice fun _ u htu _ => along_read ?_
  obtain ⟨hgrows, ht, -⟩ := hst hs
  obtain ⟨hgrows', -, -⟩ := htu ht
  split
  case isTrue => exact (keeps_bind (performs_remove hemit k _) fun _ => keeps_pure _) u
  case isFalse =>
      have hlisten : Performing R (changeNode node.id fun state =>
          { state with listeners :=
              state.listeners ++ [.voice k ((s.instruments[k]?).getD (.new 0)).nextId] }) u :=
        performing_listen ((hnode.grow hgrows).grow hgrows') fun _ => trivial
      exact along_bind hlisten fun _ _ _ _ => along_pure trivial

omit hemit in
theorem performing_ready {play : Play} (hs : s.ledger.Sound 0) (hplay : play.Known s.ledger) :
    Along (Soundly R) (((s.instruments[k]?).getD (.new 0)).ready play) s
      fun node t => t.ledger.Knows node := by
  have hnode := soundly_of_pays (R := R) (along_nodeFor (k := k) hs hplay)
    (Instrument.keeps_nodeFor _ play s)
  refine along_bind hnode fun node t hst hknown => ?_
  obtain ⟨-, ht, -⟩ := hst hs
  dsimp only
  split
  case h_1 destination _ =>
      refine along_bind (Node.keeps_connect node (.node destination) t) fun _ u htu _ => ?_
      exact along_pure (hknown.grow (htu ht).1)
  case h_2 => exact along_pure hknown

omit hemit in
theorem performing_sound {node : Node} {time : Float} {duration : Option Float}
    (hs : s.ledger.Sound 0) (hnode : s.ledger.Knows node) (htime : admits s time) :
    Performing R (Instrument.sound node time duration) s := by
  refine along_bind (performing_start hs hnode htime) fun _ t hst _ => ?_
  obtain ⟨hgrows, ht, hR⟩ := hst hs
  split
  case h_1 length hlength =>
      refine performing_stop ht (hnode.grow hgrows) ?_
      have hpos : 0 < length := by simpa using (Option.filter_eq_some_iff.1 hlength).2
      exact Paces.after (R := R) t time length (Paces.lasting s t time hR htime) hpos
  case h_2 => exact along_pure trivial

theorem performing_enter {node : Node} {time : Float} {duration : Option Float}
    (hs : s.ledger.Sound 0) (hnode : s.ledger.Knows node) (htime : admits s time) :
    Performing R (Instrument.enter emit k node time duration) s := by
  refine along_bind (performing_track hemit k hs hnode) fun id t hst _ => ?_
  obtain ⟨hgrows, ht, hR⟩ := hst hs
  have htime := Paces.lasting s t time hR htime
  refine along_bind (performing_sound ht (hnode.grow hgrows) htime) fun _ u _ _ => ?_
  exact keeps_bind (hemit k _) (fun _ => keeps_bind (performs_countVoices hemit k)
    fun _ => keeps_pure node) u

theorem performing_startWith (play : Play) {time delay duration : Option Float}
    (hs : s.ledger.Sound 0) (hplay : play.Known s.ledger)
    (htime : Punctual R admits s time delay) :
    Performing R (Instrument.startWith emit k play time delay duration) s := by
  rw [Instrument.startWith_eq]
  refine along_instrument ?_
  refine along_bind (performing_ready k hs hplay) fun node t hst hnode => along_now ?_
  obtain ⟨-, ht, hR⟩ := hst hs
  have htime := htime t hR _ (ht.formed hnode).opened
  refine along_bind (performing_steal k ht htime) fun _ u htu _ => ?_
  obtain ⟨hgrows, hu, hR'⟩ := htu ht
  exact performing_enter hemit k hu (hnode.grow hgrows) (Paces.lasting t u _ hR' htime)

theorem performs_perform (topic : Topic) (tag : String) (reaction : Reaction) :
    Keeps (Soundly R) (Instrument.perform emit k topic tag reaction) := by
  cases reaction with
  | subscribe => exact performs_changeInstrument_eq k fun _ => rfl
  | play value duration =>
      cases value with
      | none => exact performs_hear rfl
      | some x =>
          refine keeps_soundly fun s hs => ?_
          refine along_catch (along_map (performing_startWith hemit k _ hs trivial punctual_now) ?_) ?_
          · exact fun _ _ _ => trivial
          · exact fun e t _ => performs_hear rfl t
  | stopAll =>
      refine keeps_soundly fun s hs => ?_
      exact along_catch (performing_stopVoices k hs punctual_now) fun e t _ => performs_hear rfl t

theorem performs_tell (event : Event) (observer : Observer) :
    Keeps (Soundly R) (Instrument.tell emit k event observer) := by
  refine keeps_bind (performs_hear rfl) fun _ => ?_
  dsimp only
  split
  · exact keeps_bind (performs_perform hemit k _ _ _) fun _ => keeps_pure _
  · exact keeps_pure _

omit hemit in
theorem performs_announce (event : Event) : Keeps (Soundly R) (Instrument.announce k event) := by
  cases event with
  | ended voice =>
      exact performs_changeInstrument k (fun inst => inst.roster_note (.ended voice))
        (Roster.grows_announce voice) fun _ _ hr => ⟨hr.opened, hr.played, hr.voices⟩
  | started voice time =>
      exact performs_changeInstrument_eq k fun inst => inst.roster_note (.started voice time)
  | voices count => exact performs_changeInstrument_eq k fun inst => inst.roster_note (.voices count)

theorem performs_deliver (event : Event) : Keeps (Soundly R) (Instrument.deliver emit k event) := by
  refine keeps_bind (performs_announce k event) fun _ => keeps_bind (keeps_instrument k) fun _ => ?_
  refine keeps_bind (performs_changeInstrument_eq k fun _ => rfl) fun _ => ?_
  refine keeps_bind (keeps_mapM fun observer _ => performs_tell hemit k event observer) fun _ => ?_
  exact performs_changeInstrument_eq k fun _ => rfl

end Voices

-- At every depth.
theorem performs_emitAt (depth : Nat) (k : InstrumentId) (event : Event) :
    Keeps (Soundly R) (Instrument.emitAt depth k event) := by
  induction depth generalizing k event with
  | zero => exact performs_deliver performs_announce k event
  | succ depth ih => exact performs_deliver ih k event

theorem performing_emitter {next : Instrument.Emit → Act α}
    (h : ∀ emit, (∀ k event, Keeps (Soundly R) (emit k event)) → Performing R (next emit) s) :
    Performing R (Instrument.emitter >>= next) s := by
  unfold Performing Along Instrument.emitter
  simp only [ends_bind, ends_get, ends_pure]
  exact h _ (performs_emitAt _)

namespace Node

-- Who asks about a node that has ended is told at once.
theorem performing_tellEnd {node : Node} {tag : String} {reply : Reply Node} {callBack : Act Unit}
    (hs : s.ledger.Sound 0) (hnode : s.ledger.Knows node) (hreply : reply.Known s.ledger)
    (hcall : ∀ t, s.ledger.Grows t.ledger → t.ledger.Sound 0 → Performing R callBack t) :
    Performing R (tellEnd node tag reply callBack) s := by
  have hgrows := s.ledger.grows_ask node.id tag
  have hasked : Performing R
      (modify fun studio => { studio with asked := studio.asked ++ [(node.id, tag)] }) s :=
    performing_modify hgrows (fun hs => hs.ask node.id tag) (.of_eq rfl rfl rfl)
  refine along_bind hasked fun _ t hst _ => along_read ?_
  obtain ⟨hgrows, ht, -⟩ := hst hs
  split
  · exact hcall t hgrows ht
  · exact performing_listen (hnode.grow hgrows) fun _ => Reply.Known.grow hreply hgrows

theorem performs_called (tag : String) : Keeps (Soundly R) (hear (.nodeEnded tag)) := by
  refine fun s => performing_modify ?_ (fun hs => ?_) (.of_eq rfl rfl rfl)
  · rw [s.ledger_called]
    exact s.ledger.grows_call tag
  · rw [s.ledger_called]
    exact hs.call tag

-- Whatever a caller does in answer, and whoever is told of it in turn.
theorem performing_answer {reply : Reply Node} (tag : String) (hs : s.ledger.Sound 0)
    (hreply : reply.Known s.ledger) : Performing R (answer tag reply) s := by
  induction reply generalizing s tag with
  | done => exact along_pure trivial
  | stop node next ih =>
      have hnow := (Paces.present (R := R) s node.context (hs.formed hreply.1).opened).1
      have hstop : Performing R (tryCatch (do node.stop (← Act.now node.context))
          fun e => hear (.failed tag (some e))) s :=
        along_catch (along_now (performing_stop hs hreply.1 hnow)) fun e t _ => performs_hear rfl t
      refine along_bind hstop fun _ t hst _ => ?_
      obtain ⟨hgrows, ht, -⟩ := hst hs
      exact ih tag ht (hreply.2.grow hgrows)
  | ask node other reply next ihReply ihNext =>
      obtain ⟨hnode, hthen, hnext⟩ := hreply
      have htold : Performing R (tellEnd node other reply do
          hear (.nodeEnded other)
          answer other reply) s := by
        refine performing_tellEnd hs hnode hthen fun t hst ht => ?_
        refine along_bind (performs_called other t) fun _ u htu _ => ?_
        obtain ⟨hgrows, hu, -⟩ := htu ht
        exact ihReply other hu ((hthen.grow hst).grow hgrows)
      refine along_bind htold fun _ t hst _ => ?_
      obtain ⟨hgrows, ht, -⟩ := hst hs
      exact ihNext tag ht (hnext.grow hgrows)

theorem performing_callBack {reply : Reply Node} (tag : String) (hs : s.ledger.Sound 0)
    (hreply : reply.Known s.ledger) : Performing R (callBack tag reply) s := by
  refine along_bind (performs_called tag s) fun _ t hst _ => ?_
  obtain ⟨hgrows, ht, -⟩ := hst hs
  exact performing_answer tag ht (hreply.grow hgrows)

theorem performing_onEnded {node : Node} {reply : Reply Node} (tag : String)
    (hs : s.ledger.Sound 0) (hnode : s.ledger.Knows node) (hreply : reply.Known s.ledger) :
    Performing R (node.onEnded tag reply) s :=
  performing_tellEnd hs hnode hreply fun _ hst ht => performing_callBack tag ht (hreply.grow hst)

-- The last of its members brings about the end of a whole.
theorem performing_memberEnded {member whole : NodeId} {last : Act Unit}
    (hs : s.ledger.Sound 0) (hwhole : whole < s.nodes.size)
    (hlast : ∀ t, t.ledger.Sound 0 → Performing R last t) :
    Performing R (do if ← memberEnded whole member then last) s := by
  have hledger := s.ledger_changeNode hwhole (g := .miss member)
    (f := fun state => { state with awaiting := state.awaiting.erase member }) fun _ => rfl
  have hmissed : Performing R (changeNode whole fun state =>
      { state with awaiting := state.awaiting.erase member }) s := by
    refine performing_modify ?_ (fun hs => ?_) (.of_change whole fun _ => rfl)
    · rw [hledger]
      exact s.ledger.grows_setFate whole (Fate.grows_miss _ _)
    · rw [hledger]
      exact hs.setFate whole (Fate.grows_miss _ _) rfl fun _ => .inl
  have hended : Performing R (memberEnded whole member) s :=
    along_bind hmissed fun _ t _ _ => keeps_bind keeps_get (fun _ => keeps_pure _) t
  refine along_bind hended fun wasLast t hst _ => ?_
  obtain ⟨-, ht, -⟩ := hst hs
  split
  · exact hlast t ht
  · exact along_pure trivial

-- Each listener in its turn.
theorem performing_ending {emit : Instrument.Emit}
    (hemit : ∀ k event, Keeps (Soundly R) (emit k event)) {bound : Nat} {id : NodeId}
    (hs : s.ledger.Sound 0) : Performing R (ending emit bound id) s := by
  induction bound generalizing s id with
  | zero => exact along_pure trivial
  | succ bound ih =>
      rw [ending]
      refine along_read ?_
      cases hstate : s.nodes[id]? with
      | none => exact along_pure trivial
      | some state =>
          dsimp only
          split
          case isTrue => exact along_pure trivial
          case isFalse =>
              have hlisteners : (s.ledger.fate id).listeners = state.listeners := by
                simp only [Studio.ledger, hstate]
                rfl
              have hledger := s.ledger_changeNode (g := .close)
                (Array.getElem?_eq_some_iff.1 hstate).1
                (f := fun state => { state with ended := true, listeners := [] }) fun _ => rfl
              have hclosed : Performing R (changeNode id fun state =>
                  { state with ended := true, listeners := [] }) s := by
                refine performing_modify ?_ (fun hs => ?_) (.of_change id fun _ => rfl)
                · rw [hledger]
                  exact s.ledger.grows_setFate id (Fate.grows_close _)
                · rw [hledger]
                  exact hs.setFate id (Fate.grows_close _) rfl (by simp [Fate.close])
              refine along_bind hclosed fun _ t hst _ => ?_
              obtain ⟨hgrows, ht, -⟩ := hst hs
              refine performing_forM ht fun listener hlistener u htu hu => ?_
              have hheeds := ((hs.listener id listener (hlisteners ▸ hlistener)).grow hgrows).grow htu
              cases listener with
              | whole whole => exact performing_memberEnded hu hheeds.below fun v hv => ih hv
              | voice k i => exact performs_remove hemit k i u
              | caller tag reply => exact performing_callBack tag hu hheeds

end Node

theorem performing_notify {emit : Instrument.Emit}
    (hemit : ∀ k event, Keeps (Soundly R) (emit k event)) (watcher : Watcher) :
    Keeps (Soundly R) (notify emit watcher) := by
  cases watcher with
  | node id => exact keeps_bind keeps_get fun _ => keeps_soundly fun s hs =>
      Node.performing_ending hemit hs
  | tag tag => exact performs_hear rfl

-- What ends has been started as it was.
omit hpaces in
theorem untouched_endDue (context : ContextId) : Untouched s (s.round context) := by
  refine .of_engine context (fun h => ?_) rfl rfl
  simp only [Engine.endDue, Array.getElem?_map]
  cases (s.engine context).nodes[h]? with
  | none => rfl
  | some node =>
      simp only [Option.map_some]
      split <;> rfl

theorem performs_settle {emit : Instrument.Emit}
    (hemit : ∀ k event, Keeps (Soundly R) (emit k event)) (context : ContextId) (rounds : Nat) :
    Keeps (Soundly R) (settle emit context rounds) := by
  induction rounds with
  | zero => exact keeps_pure _
  | succ rounds ih =>
      rw [settle]
      refine keeps_soundly fun s hs => along_read ?_
      split
      case isTrue => exact along_pure trivial
      case isFalse hne =>
          obtain ⟨ending, hending⟩ := List.exists_mem_of_ne_nil _ (mt List.isEmpty_iff.2 hne)
          have hc := Studio.opened_of_due (List.mem_map_of_mem hending)
          have hround : Performing R (setEngine context (s.engine context).endDue.2) s :=
            performing_modify (R := R) (move_round hc [] ⟨[], []⟩ : Move 0 _ _).grows
              (move_round hc [] ⟨[], []⟩).sound (untouched_endDue context)
          refine along_bind hround fun _ t _ _ => ?_
          refine keeps_bind (keeps_forM fun ending _ => ?_) (fun _ => ih) t
          exact keeps_forM fun watcher _ => performing_notify hemit watcher

-- Once the clock has moved on.
theorem performing_advanceTo (context : ContextId) (time : Float)
    (hadvanced : R s (s.advanced context time)) : Performing R (Act.advanceTo context time) s := by
  have hmoved : Performing R (setEngine context ((s.engine context).advance time)) s := by
    have hledger := @Studio.ledger_setEngine_eq s context ((s.engine context).advance time) rfl
    exact along_modify fun hs => ⟨hledger ▸ .refl _, hledger ▸ hs, hadvanced⟩
  refine along_read (along_bind hmoved fun _ t _ _ => along_read ?_)
  exact performing_emitter fun emit hemit => performs_settle hemit context _ t

end Paces

end Patchbay
