import Patchbay.Proofs.Wiring.Drives
import Patchbay.Proofs.Lifetime.Refusal

namespace Patchbay

open Act

namespace Bank

def tone (id : NodeId) (c : ContextId) (host : HostId) : Node :=
  .leaf ⟨id, c, "Oscillator" ++ hostLabel host, none, none⟩ host true [.frequency, .detune] []

def level (id : NodeId) (c : ContextId) (host : HostId) : Node :=
  .leaf ⟨id, c, "Gain" ++ hostLabel host, none, none⟩ host false [.gain] []

-- A series of two of no known length.
def paired (id : NodeId) (head next : Node) : Node :=
  .series ⟨id, head.context, "Series(" ++ head.label ++ ".." ++ next.label ++ ")", none, none⟩ head
    [next]

-- Each partial has two host nodes, and is of three nodes.
def strand (c : ContextId) (base : HostId) (first : NodeId) (i : Nat) : Node :=
  paired (first + 3 * i + 2) (tone (first + 3 * i) c (base + 2 * i))
    (level (first + 3 * i + 1) c (base + 2 * i + 1))

def mix (c : ContextId) (base : HostId) (first : NodeId) (n : Nat) : Node :=
  .parallel ⟨first + 3 * n, c, "Parallel" ++ hostLabel (base + 2 * n), none, none⟩ (base + 2 * n)
    (base + 2 * n + 1) ((List.range n).map (strand c base first))

def whole (c : ContextId) (base : HostId) (first : NodeId) (n : Nat) : Node :=
  paired (first + 3 * n + 2) (mix c base first n)
    (level (first + 3 * n + 1) c (base + 2 * n + 2))

def loudness (settings : BankSettings) (i : Nat) : Float := (Node.inTurn settings.gains i).getD 1

def shape (settings : BankSettings) (i : Nat) : Waveform :=
  (Node.inTurn settings.waveforms i).getD .sine

-- What the sum is multiplied by.
def share (settings : BankSettings) (n : Nat) : Float :=
  if settings.normalize then 1 / Float.ofNat n else 1

def toneHost (id : NodeId) (waveform : Waveform) (frequency : Float) : HostNode :=
  Node.watched (.oscillator waveform) id
    ((HostNode.ofKind (some (.oscillator waveform))).setValue .frequency frequency)

def levelHost (x : Float) : HostNode := (HostNode.ofKind (some .gain)).setValue .gain x

def strandCalls (settings : BankSettings) (base : HostId) : Float × Nat → List HostCall
  | (ratio, i) => [.create (base + 2 * i) "Oscillator",
    .setParam (base + 2 * i) .frequency (ratio * settings.frequency),
    .create (base + 2 * i + 1) "Gain",
    .setParam (base + 2 * i + 1) .gain (loudness settings i),
    .connect (base + 2 * i) (.node (base + 2 * i + 1))]

def strandHosts (settings : BankSettings) (first : NodeId) : Float × Nat → List HostNode
  | (ratio, i) => [toneHost (first + 3 * i) (shape settings i) (ratio * settings.frequency),
    levelHost (loudness settings i)]

def mixCalls (base : HostId) (n : Nat) : List HostCall :=
  [.create (base + 2 * n) "Gain", .create (base + 2 * n + 1) "Gain",
    .setParam (base + 2 * n) .gain 1, .setParam (base + 2 * n + 1) .gain 1] ++
  (List.range n).map fun i => .connect (base + 2 * i + 1) (.node (base + 2 * n + 1))

def told (settings : BankSettings) (base : HostId) (ratios : List Float) : List HostCall :=
  let n := ratios.length
  ratios.zipIdx.flatMap (strandCalls settings base) ++ mixCalls base n ++
    [.create (base + 2 * n + 2) "Gain", .setParam (base + 2 * n + 2) .gain (share settings n),
      .connect (base + 2 * n + 1) (.node (base + 2 * n + 2))]

def held (settings : BankSettings) (first : NodeId) (ratios : List Float) : List HostNode :=
  ratios.zipIdx.flatMap (strandHosts settings first) ++
    [levelHost 1, levelHost 1, levelHost (share settings ratios.length)]

-- Of pairs in a row, the first of each is at an even place and the second right behind it.
theorem getElem?_pairs {α β : Type} (items : List α) (f g : α → β) (i : Nat) :
    (items.flatMap fun a => [f a, g a])[2 * i]? = items[i]?.map f ∧
      (items.flatMap fun a => [f a, g a])[2 * i + 1]? = items[i]?.map g := by
  induction items generalizing i with
  | nil => simp
  | cons a rest ih =>
      cases i with
      | zero => exact ⟨rfl, rfl⟩
      | succ i => exact ih i

theorem length_pairs {α β : Type} (items : List α) (f g : α → β) :
    (items.flatMap fun a => [f a, g a]).length = 2 * items.length := by
  simp [Nat.mul_comm]

section Held

variable (settings : BankSettings) (first : NodeId) {ratios : List Float}

theorem length_strands (ratios : List Float) :
    (ratios.zipIdx.flatMap (strandHosts settings first)).length = 2 * ratios.length :=
  (length_pairs _ _ _).trans (by rw [List.length_zipIdx])

-- Where the tone of a partial is, and its gain.
theorem strands_at {i : Nat} {ratio : Float} (h : ratios[i]? = some ratio) :
    (ratios.zipIdx.flatMap (strandHosts settings first))[2 * i]? =
        some (toneHost (first + 3 * i) (shape settings i) (ratio * settings.frequency)) ∧
      (ratios.zipIdx.flatMap (strandHosts settings first))[2 * i + 1]? =
        some (levelHost (loudness settings i)) := by
  have hitem : ratios.zipIdx[i]? = some (ratio, i) := by simp [h]
  obtain ⟨htone, hlevel⟩ := getElem?_pairs ratios.zipIdx
    (fun x => toneHost (first + 3 * x.2) (shape settings x.2) (x.1 * settings.frequency))
    (fun x => levelHost (loudness settings x.2)) i
  rw [hitem] at htone hlevel
  exact ⟨htone, hlevel⟩

theorem held_at {i : Nat} {ratio : Float} (h : ratios[i]? = some ratio) :
    (held settings first ratios)[2 * i]? =
        some (toneHost (first + 3 * i) (shape settings i) (ratio * settings.frequency)) ∧
      (held settings first ratios)[2 * i + 1]? = some (levelHost (loudness settings i)) := by
  obtain ⟨htone, hlevel⟩ := strands_at settings first h
  refine ⟨?_, ?_⟩
  · rw [held, List.getElem?_append_left (List.getElem?_eq_some_iff.1 htone).1, htone]
  · rw [held, List.getElem?_append_left (List.getElem?_eq_some_iff.1 hlevel).1, hlevel]

theorem held_last (ratios : List Float) : (held settings first ratios)[2 * ratios.length + 2]? =
    some (levelHost (share settings ratios.length)) := by
  have hlength := length_strands settings first ratios
  rw [held, List.getElem?_append_right (by omega), hlength, Nat.add_sub_cancel_left]
  rfl

end Held

section Build

variable {c : ContextId} {calls : List HostCall} {hosts : List HostNode} {n i : Nat}
variable {s t : Studio} {fail : Error → Studio → Prop}

theorem ends_tone (h : Extends c calls hosts n s t) (hc : c < s.engines.size) (waveform : Waveform)
    (frequency : Float) :
    let host := (s.engine c).nodes.size + hosts.length
    Ends (Node.oscillator c waveform (.fixed frequency) none) t
      (fun node u => node = tone (s.nodes.size + n) c host ∧
        Extends c (calls ++ [.create host "Oscillator", .setParam host .frequency frequency])
          (hosts ++ [toneHost (s.nodes.size + n) waveform frequency]) (n + 1) s u) fail := by
  refine Node.ends_settled h hc (by simp [Node.drivers]) ?_
  simp [Node.Settles, NodeKind.params]

theorem ends_level (h : Extends c calls hosts n s t) (hc : c < s.engines.size) (x : Float) :
    let host := (s.engine c).nodes.size + hosts.length
    Ends (Node.gain c (.fixed x)) t
      (fun node u => node = level (s.nodes.size + n) c host ∧
        Extends c (calls ++ [.create host "Gain", .setParam host .gain x])
          (hosts ++ [levelHost x]) (n + 1) s u) fail := by
  refine Node.ends_settled h hc (by simp [Node.drivers]) ?_
  simp [Node.Settles, NodeKind.params]

theorem length_zero : Node.length (some 0) = none := by decide +kernel

-- Lengths that are not known add up to none.
theorem foldl_none (f : Float → Float → Float) (length : Node → Option Float) {parts : List Node}
    (hf : f 0 0 = 0) (h : ∀ part ∈ parts, length part = none) :
    parts.foldl (fun x part => f x ((length part).getD 0)) 0 = 0 := by
  induction parts with
  | nil => rfl
  | cons part rest ih =>
      obtain ⟨hpart, hrest⟩ := List.forall_mem_cons.1 h
      rw [List.foldl_cons, hpart, Option.getD_none, hf, ih hrest]

-- A node takes what the host node takes where it has its input.
theorem inputs_at (h : Extends c calls hosts n s t) (hc : c < s.engines.size) {node : Node}
    (hnode : ∀ inputs, node.findInputs inputs = inputs c ((s.engine c).nodes.size + i))
    {made : HostNode} (hmade : hosts[i]? = some made) : t.inputs node = made.inputs := by
  rw [Studio.inputs, hnode, h.engine_of hc, Engine.inputs, Engine.getElem?_added, hmade]
  rfl

-- A gain that was made takes a connection.
theorem admits_level {x : Float} (hhost : hosts[i]? = some (levelHost x)) :
    ((s.engine c).extend calls hosts).admits (.node ((s.engine c).nodes.size + i)) = true := by
  rw [Engine.admits, Engine.inputs, Engine.getElem?_added, hhost]
  rfl

-- What has no length goes through a gain.
theorem ends_paired (head : Node) (h : Extends c calls hosts n s t) (hc : c < s.engines.size)
    (hhead : head.context = c) (houtput : head.outputHost < (s.engine c).nodes.size + hosts.length)
    (hduration : head.duration = none) (hrelease : head.release = none) (id : NodeId)
    {x : Float} (hhost : hosts[i]? = some (levelHost x)) :
    let next := level id c ((s.engine c).nodes.size + i)
    Ends (Node.inSeries head [next]) t
      (fun node u => node = paired (s.nodes.size + n) head next ∧
        Extends c (calls ++ [.connect head.outputHost (.node next.inputHost)]) hosts (n + 1) s u)
      fail := by
  intro next
  have hinputs : t.inputs next = 1 := inputs_at h hc (fun _ => rfl) hhost
  have hchain : Ends (head.chain [next]) t
      (fun _ u => Extends c (calls ++ [.connect head.outputHost (.node next.inputHost)]) hosts n s u)
      fail := by
    have hcontext : ¬head.context ≠ next.context := not_not.2 hhead
    unfold Node.chain Node.connect Node.checkContext
    rw [ends_bind, ends_get, if_pos (by rw [hinputs]; decide), ends_bind, ends_bind,
      if_neg hcontext, ends_pure]
    refine (h.ends_connectEndpoint hc hhead houtput (admits_level hhost)).imp fun _ u hu => ?_
    unfold Node.chain
    rwa [ends_pure]
  -- A series always adds lengths up, but a sum of 0 counts as no length.
  have hlengths : ∀ part ∈ [head, next], part.duration = none ∧ part.release = none := by
    intro part hpart
    obtain rfl | rfl := List.mem_pair.1 hpart
    · exact ⟨hduration, hrelease⟩
    · exact ⟨rfl, rfl⟩
  have hlong := foldl_none Time.later Node.duration (by decide +kernel)
    fun part hpart => (hlengths part hpart).1
  have hlast := foldl_none (· + ·) Node.release (by decide +kernel)
    fun part hpart => (hlengths part (List.mem_of_mem_filter (p := Node.isStartable) hpart)).2
  unfold Node.inSeries
  rw [List.getLast?_singleton]
  refine hchain.bind fun _ u hu => ?_
  simp only [hhead]
  refine hu.ends_enrol.imp ?_
  rintro node v ⟨rfl, hv⟩
  rw [hlong, hlast, length_zero, paired, hhead]
  exact ⟨rfl, hv⟩

theorem ends_strand (h : Extends c calls hosts (3 * i) s t) (hc : c < s.engines.size)
    (hlength : hosts.length = 2 * i) (settings : BankSettings) (ratio : Float) :
    let base := (s.engine c).nodes.size
    Ends (do
        let tone ← Node.oscillator c (shape settings i) (.fixed (ratio * settings.frequency)) none
        Node.inSeries tone [← Node.gain c (.fixed (loudness settings i))]) t
      (fun node u => node = strand c base s.nodes.size i ∧
        Extends c (calls ++ strandCalls settings base (ratio, i))
          (hosts ++ strandHosts settings s.nodes.size (ratio, i)) (3 * (i + 1)) s u) fail := by
  intro base
  refine (ends_tone h hc _ _).bind ?_
  rintro _ u ⟨rfl, hu⟩
  refine (ends_level hu hc _).bind ?_
  rintro _ v ⟨rfl, hv⟩
  have houtput : base + hosts.length < base + (hosts ++ [toneHost (s.nodes.size + 3 * i)
      (shape settings i) (ratio * settings.frequency)] ++
        [levelHost (loudness settings i)]).length := by
    simp
  refine (ends_paired (tone _ c _) hv hc rfl houtput rfl rfl _ List.getElem?_concat_length).imp ?_
  rintro _ w ⟨rfl, hw⟩
  rw [List.length_append, List.length_singleton, hlength] at hw ⊢
  rw [List.append_assoc, List.append_assoc, List.append_assoc] at hw
  exact ⟨rfl, hw⟩

-- By the count of the partials so far, as each takes two host nodes and is of three nodes.
theorem ends_partials {ratios : List Float} (h : Extends c calls hosts (3 * i) s t)
    (hc : c < s.engines.size) (hlength : hosts.length = 2 * i) (settings : BankSettings) :
    let base := (s.engine c).nodes.size
    Ends (Node.partials c settings i ratios) t
      (fun strands u => strands = (List.range' i ratios.length).map (strand c base s.nodes.size) ∧
        Extends c (calls ++ (ratios.zipIdx i).flatMap (strandCalls settings base))
          (hosts ++ (ratios.zipIdx i).flatMap (strandHosts settings s.nodes.size))
          (3 * (i + ratios.length)) s u) fail := by
  intro base
  induction ratios generalizing i calls hosts t with
  | nil =>
      rw [Node.partials, ends_pure]
      exact ⟨rfl, by simpa using h⟩
  | cons ratio rest ih =>
      have hstrand : Node.partials c settings i (ratio :: rest) = (do
          let strand ← (do
            let tone ←
              Node.oscillator c (shape settings i) (.fixed (ratio * settings.frequency)) none
            Node.inSeries tone [← Node.gain c (.fixed (loudness settings i))])
          return strand :: (← Node.partials c settings (i + 1) rest)) := by
        simp only [bind_assoc]
        rfl
      rw [hstrand]
      refine (ends_strand h hc hlength settings ratio).bind ?_
      rintro _ u ⟨rfl, hu⟩
      have hlength' : (hosts ++ strandHosts settings s.nodes.size (ratio, i)).length =
          2 * (i + 1) := by
        rw [List.length_append, hlength]
        rfl
      refine (ih hu hlength').bind ?_
      rintro _ v ⟨rfl, hv⟩
      rw [ends_pure]
      refine ⟨rfl, ?_⟩
      rw [List.append_assoc, List.append_assoc, Nat.add_right_comm] at hv
      exact hv

-- The tones take no connection, and every gain goes into the sum.
theorem ends_summed {strands : List Nat} (h : Extends c calls hosts n s t) (hc : c < s.engines.size)
    (htones : ∀ k ∈ strands, ∃ made, hosts[2 * k]? = some made ∧ made.inputs = 0)
    (hlevels : ∀ k ∈ strands, 2 * k + 1 < hosts.length) {x : Float}
    (hsum : hosts[i]? = some (levelHost x)) (input : HostId) (first : NodeId) :
    let base := (s.engine c).nodes.size
    Ends ((strands.map (strand c base first)).forM (Node.joinBranch c input (base + i))) t
      (fun _ u => Extends c
        (calls ++ strands.map fun k => .connect (base + 2 * k + 1) (.node (base + i))) hosts n s u)
      fail := by
  intro base
  induction strands generalizing calls t with
  | nil =>
      rw [List.map_nil, ends_forM_nil]
      simpa using h
  | cons k rest ih =>
      obtain ⟨⟨made, hmade, hnone⟩, htones⟩ := List.forall_mem_cons.1 htones
      obtain ⟨hlevel, hlevels⟩ := List.forall_mem_cons.1 hlevels
      have hinputs : t.inputs (strand c base first k) = 0 :=
        (inputs_at h hc (fun _ => rfl) hmade).trans hnone
      rw [List.map_cons, ends_forM_cons]
      unfold Node.joinBranch
      rw [ends_bind, ends_get, hinputs, if_neg (Nat.lt_irrefl 0)]
      have houtput : (strand c base first k).outputHost < base + hosts.length :=
        Nat.add_lt_add_left hlevel base
      refine (h.ends_connectEndpoint hc rfl houtput (admits_level hsum)).imp fun _ u hu => ?_
      refine (ih hu htones hlevels).imp fun _ v hv => ?_
      rw [List.append_assoc] at hv
      exact hv

-- Two gains of 1 side by side, with what is done with them.
theorem ends_sums {α : Type} {next : HostId → HostId → Act α} {ok : α → Studio → Prop}
    (h : Extends c calls hosts n s t) (hc : c < s.engines.size) :
    let input := (s.engine c).nodes.size + hosts.length
    let output := (s.engine c).nodes.size + (hosts.length + 1)
    (∀ u, Extends c (calls ++ [.create input "Gain", .create output "Gain", .setParam input .gain 1,
        .setParam output .gain 1]) (hosts ++ [levelHost 1, levelHost 1]) n s u →
      Ends (next input output) u ok fail) →
    Ends (do
        let input ← createHost c .gain
        let output ← createHost c .gain
        Act.host c (·.setParam input .gain 1)
        Act.host c (·.setParam output .gain 1)
        next input output) t ok fail := by
  intro input output hnext
  let made : HostNode := .ofKind (some .gain)
  have hfirst : (hosts ++ [made, made]).modify hosts.length (·.setValue .gain 1) =
      hosts ++ [levelHost 1, made] := Node.modify_added hosts [made] made _
  have hinput : (hosts ++ [made, made])[hosts.length]? = some made := by simp
  have houtput : (hosts ++ [levelHost 1, made])[hosts.length + 1]? = some made := by simp
  have hsecond : (hosts ++ [levelHost 1, made]).modify (hosts.length + 1) (·.setValue .gain 1) =
      hosts ++ [levelHost 1, levelHost 1] := by
    have h := Node.modify_added (hosts ++ [levelHost 1]) [] made (·.setValue .gain 1)
    rwa [List.append_assoc, List.append_assoc, List.length_append] at h
  refine (h.ends_createHost hc .gain).bind ?_
  rintro _ u ⟨rfl, hu⟩
  refine (hu.ends_createHost hc .gain).bind ?_
  rintro _ v ⟨rfl, hv⟩
  rw [List.append_assoc, List.append_assoc, List.length_append, List.length_singleton] at hv
  rw [List.length_append, List.length_singleton]
  have hv : Extends c (calls ++ [.create input "Gain", .create output "Gain"])
      (hosts ++ [made, made]) n s v := hv
  refine (hv.ends_setParam hc hinput (by decide) 1).bind fun _ w hw => ?_
  rw [hfirst] at hw
  refine (hw.ends_setParam hc houtput (by decide) 1).bind fun _ x hx => hnext x ?_
  rw [hsecond, List.append_assoc, List.append_assoc] at hx
  exact hx

theorem ends_mix {first : Node} {rest : List Node} (h : Extends c calls hosts (3 * n) s t)
    (hc : c < s.engines.size) (hlength : hosts.length = 2 * n)
    (htones : ∀ k < n, ∃ made, hosts[2 * k]? = some made ∧ made.inputs = 0)
    (hstrands : first :: rest =
      (List.range n).map (strand c (s.engine c).nodes.size s.nodes.size)) :
    let base := (s.engine c).nodes.size
    Ends (Node.inParallel first rest) t
      (fun node u => node = mix c base s.nodes.size n ∧
        Extends c (calls ++ mixCalls base n) (hosts ++ [levelHost 1, levelHost 1]) (3 * n + 1) s u)
      fail := by
  intro base
  have hbranches : ∀ branch ∈ first :: rest, branch.context = c ∧ branch.duration = none ∧
      branch.release = none := by
    rw [hstrands, List.forall_mem_map]
    exact fun _ _ => ⟨rfl, rfl, rfl⟩
  obtain ⟨hcontext, hduration, -⟩ := hbranches first List.mem_cons_self
  -- One branch without a length is enough for the mix to have none.
  have hlong : Node.length (Node.longest (first :: rest)) = none := by
    rw [Node.longest, hduration]
    rfl
  have hlast := foldl_none Time.later Node.release (by decide +kernel)
    fun branch hbranch => (hbranches branch hbranch).2.2
  have hlevels : ∀ k ∈ List.range n, 2 * k + 1 < (hosts ++ [levelHost 1, levelHost 1]).length := by
    intro k hk
    have hk : k < n := List.mem_range.1 hk
    rw [List.length_append, hlength]
    omega
  have hheads : ∀ k ∈ List.range n, ∃ made,
      (hosts ++ [levelHost 1, levelHost 1])[2 * k]? = some made ∧ made.inputs = 0 := by
    intro k hk
    have hk : k < n := List.mem_range.1 hk
    rw [List.getElem?_append_left (by omega)]
    exact htones k hk
  unfold Node.inParallel
  simp only [hcontext]
  refine ends_sums h hc fun u hu => ?_
  rw [hstrands] at hlast hlong ⊢
  refine (ends_summed hu hc hheads hlevels (i := hosts.length + 1) (x := 1) (by simp) _ _).bind
    fun _ v hv => ?_
  refine hv.ends_enrol.imp ?_
  rintro node w ⟨rfl, hw⟩
  rw [List.append_assoc] at hw
  rw [hlong, hlast, length_zero]
  rw [hlength] at hw ⊢
  exact ⟨rfl, hw⟩

theorem ends_bank (hc : c < s.engines.size) (settings : BankSettings) (ratios : List Float) :
    let base := (s.engine c).nodes.size
    let n := ratios.length
    Ends (Node.bank c ratios settings) s
      (fun node t => ratios ≠ [] ∧ node = whole c base s.nodes.size n ∧
        Extends c (told settings base ratios) (held settings s.nodes.size ratios) (3 * n + 3) s t)
      fun e t => ratios = [] ∧ e = .config .emptyBank ∧ t = s := by
  intro base n
  cases hratios : ratios with
  | nil =>
      have hfails : Node.bank c [] settings s = .error (.config .emptyBank) s := rfl
      unfold Ends
      rw [hfails]
      exact ⟨rfl, rfl, rfl⟩
  | cons ratio others =>
      rw [← hratios]
      unfold Node.bank
      refine (ends_partials (i := 0) (.refl c s) hc rfl settings).bind ?_
      rintro strands t ⟨hstrands, ht⟩
      cases strands with
      | nil => simp [hratios] at hstrands
      | cons first rest =>
          rw [List.nil_append, List.nil_append, Nat.zero_add] at ht
          rw [← List.range_eq_range'] at hstrands
          have hlength := length_strands settings s.nodes.size ratios
          have htones : ∀ k < n, ∃ made,
              (ratios.zipIdx.flatMap (strandHosts settings s.nodes.size))[2 * k]? = some made ∧
                made.inputs = 0 := fun k hk =>
            ⟨_, (strands_at settings _ (List.getElem?_eq_getElem hk)).1, rfl⟩
          refine (ends_mix ht hc hlength htones hstrands).bind ?_
          rintro _ u ⟨rfl, hu⟩
          refine (ends_level hu hc _).bind ?_
          rintro _ v ⟨rfl, hv⟩
          have hsum : base + 2 * n + 1 < base + (ratios.zipIdx.flatMap
              (strandHosts settings s.nodes.size) ++ [levelHost 1, levelHost 1] ++
                [levelHost (share settings n)]).length := by
            rw [List.length_append, List.length_append, hlength]
            exact Nat.add_lt_add_left (Nat.lt_add_of_pos_right (by decide) : 2 * n + 1 < _ + 2) base
          refine (ends_paired (mix c base _ n) hv hc rfl hsum rfl rfl _
            List.getElem?_concat_length).imp ?_
          rintro _ w ⟨rfl, hw⟩
          rw [List.length_append, hlength] at hw ⊢
          refine ⟨by simp [hratios], rfl, ?_⟩
          rw [List.append_assoc, List.append_assoc, List.append_assoc] at hw
          rw [told, List.append_assoc]
          exact hw

end Build

end Bank

-- Between the two studios one host has been told these calls, and no other host anything.
structure Receives (c : ContextId) (calls : List HostCall) (s t : Studio) : Prop where
  log : (t.engine c).calls = (s.engine c).calls ++ calls.toArray
  others : ∀ d ≠ c, t.engine d = s.engine d

theorem Receives.nil (c : ContextId) (s : Studio) : Receives c [] s s :=
  ⟨by simp, fun _ _ => rfl⟩

theorem Receives.append {c : ContextId} {calls more : List HostCall} {s t u : Studio}
    (h : Receives c calls s t) (h' : Receives c more t u) : Receives c (calls ++ more) s u where
  log := by rw [h'.log, h.log, Array.append_assoc, List.append_toArray calls more]
  others d hd := (h'.others d hd).trans (h.others d hd)

-- A source that was never started, neither as a node nor at its host.
structure Unplayed (c : ContextId) (id : NodeId) (host : HostId) (s : Studio) : Prop where
  node : s.started id = false
  host : ((s.engine c).nodes[host]?).any (fun made => made.isSource && made.startedAt.isNone) = true

-- What a call does that a host takes.
theorem Act.ends_taken {c : ContextId} {s : Studio} (call : Engine → Except HostFault Engine)
    {after : Engine} (hc : c < s.engines.size) (hcall : call (s.engine c) = .ok after) :
    Ends (Act.host c call) s
      (fun _ t => t.engines.size = s.engines.size ∧ t.engine c = after ∧
        (∀ d ≠ c, t.engine d = s.engine d) ∧ t.nodes = s.nodes)
      fun _ _ => False := by
  refine Act.ends_host (fun other hother => ?_) fun fault hfault => ?_
  · obtain rfl := Except.ok.inj (hcall.symm.trans hother)
    refine ⟨Array.size_modify, Studio.engine_set hc after, fun d hd => ?_, rfl⟩
    exact (s.engine_setEngine c d after).trans (if_neg fun hsame => hd hsame.1.symm)
  · rw [hcall] at hfault
    cases hfault

namespace Node

variable {s : Studio} {time : Float}

theorem checkTime_of_finite (node : Node) (h : time.isFinite = true) :
    node.checkTime time = pure () := by
  funext s
  rw [checkTime_eq, h]
  rfl

-- Without a length, a start is one of the node itself and one of its parts.
theorem start_through {node : Node} (htime : time.isFinite = true) (hlength : node.duration = none) :
    node.start time = (do node.startOwn time; startAll node.parts time) := by
  rw [start_eq, node.checkTime_of_finite htime, stopAtEnd, hlength]
  simp

theorem ends_startSource (node : Node) {host : HostId} (hc : node.context < s.engines.size)
    (h : Unplayed node.context node.id host s) :
    Ends (node.startSource host time) s
      (fun _ t => t.engines.size = s.engines.size ∧
        Receives node.context [.start host time] s t ∧
        ∀ id other, id ≠ node.id → other ≠ host → Unplayed node.context id other s →
          Unplayed node.context id other t)
      fun _ _ => False := by
  obtain ⟨made, hmade, hunplayed⟩ := (Option.any_eq_true _ _).1 h.host
  rw [Bool.and_eq_true, Option.isNone_iff_eq_none] at hunplayed
  have hstarted : ¬(node.state s).started = true := by
    rw [state_started, h.node]
    exact Bool.false_ne_true
  have htaken := Engine.start_source hmade hunplayed.1 time
  rw [if_neg (by simp [hunplayed.2])] at htaken
  unfold startSource
  rw [ends_bind, ends_get, if_neg hstarted, changeNode, ends_bind, ends_modify]
  refine Ends.imp (ends_taken (·.start host time) hc htaken) ?_
  rintro _ t ⟨hsize, hengine, hothers, hnodes⟩
  refine ⟨hsize, ⟨?_, hothers⟩, fun id other hid hother hfresh => ⟨?_, ?_⟩⟩
  · rw [hengine, Engine.record_eq]
    rfl
  · rw [← hfresh.node, Studio.started, hnodes, Array.getElem?_modify, if_neg (Ne.symm hid)]
    rfl
  · rw [← hfresh.host, hengine, Engine.record, Engine.change, Array.getElem?_modify,
      if_neg (Ne.symm hother)]

end Node

namespace Bank

variable {c : ContextId} {base : HostId} {first : NodeId} {s : Studio} {time : Float}

theorem start_tone (htime : time.isFinite = true) (id : NodeId) (host : HostId) :
    (tone id c host).start time = (tone id c host).startSource host time := by
  rw [Node.start_through htime rfl]
  exact bind_pure _

-- The gain has no part in it.
theorem start_paired (htime : time.isFinite = true) {head : Node} (hstart : head.isStartable = true)
    (id next : NodeId) (host : HostId) :
    (paired id head (level next c host)).start time = head.start time := by
  have hnext : (level next c host).isStartable = false := rfl
  rw [Node.start_through htime rfl, paired, Node.startOwn, pure_bind, Node.parts, Node.startAll,
    if_pos hstart, Node.startAll, hnext, if_neg Bool.false_ne_true, Node.startAll]
  exact bind_pure _

theorem startAll_strands (htime : time.isFinite = true) (strands : List Nat) :
    Node.startAll (strands.map (strand c base first)) time = strands.forM fun k =>
      (tone (first + 3 * k) c (base + 2 * k)).startSource (base + 2 * k) time := by
  induction strands with
  | nil => rfl
  | cons k rest ih =>
      have hstart : (strand c base first k).isStartable = true := rfl
      rw [List.map_cons, Node.startAll, if_pos hstart, ih, strand, start_paired htime rfl,
        start_tone htime]
      rfl

theorem start_whole (htime : time.isFinite = true) {n : Nat} (hn : n ≠ 0) :
    (whole c base first n).start time = (List.range n).forM fun k =>
      (tone (first + 3 * k) c (base + 2 * k)).startSource (base + 2 * k) time := by
  have hstart : (mix c base first n).isStartable = true := by
    obtain ⟨m, rfl⟩ := Nat.exists_eq_succ_of_ne_zero hn
    rw [mix, Node.isStartable, List.range_succ_eq_map]
    rfl
  rw [whole, start_paired htime hstart, Node.start_through htime rfl, mix, Node.startOwn, pure_bind,
    Node.parts, startAll_strands htime]

theorem ends_starts (time : Float) {strands : List Nat} (hc : c < s.engines.size)
    (hnodup : strands.Nodup)
    (hunplayed : ∀ k ∈ strands, Unplayed c (first + 3 * k) (base + 2 * k) s) :
    Ends (strands.forM fun k =>
        (tone (first + 3 * k) c (base + 2 * k)).startSource (base + 2 * k) time) s
      (fun _ t => Receives c (strands.map fun k => .start (base + 2 * k) time) s t)
      fun _ _ => False := by
  induction strands generalizing s with
  | nil =>
      rw [ends_forM_nil]
      exact .nil c s
  | cons k rest ih =>
      obtain ⟨hk, hrest⟩ := List.forall_mem_cons.1 hunplayed
      obtain ⟨hother, hnodup⟩ := List.nodup_cons.1 hnodup
      rw [ends_forM_cons]
      refine ((tone _ c _).ends_startSource hc hk).imp ?_
      rintro _ t ⟨hsize, hreceives, hkept⟩
      -- The strands that follow have numbers of their own, so this start has not touched them.
      have hlater : ∀ j ∈ rest, Unplayed c (first + 3 * j) (base + 2 * j) t := by
        intro j hj
        have hne : j ≠ k := ne_of_mem_of_not_mem hj hother
        refine hkept _ _ (fun hsame => hne ?_) (fun hsame => hne ?_) (hrest j hj)
        · exact Nat.eq_of_mul_eq_mul_left (by decide) (Nat.add_left_cancel hsame)
        · exact Nat.eq_of_mul_eq_mul_left (by decide) (Nat.add_left_cancel hsame)
      exact (ih (hsize ▸ hc) hnodup hlater).imp fun _ u hu => hreceives.append hu

theorem tone_unplayed {calls : List HostCall} {hosts : List HostNode} {n i : Nat} {t : Studio}
    (h : Extends c calls hosts n s t) (hc : c < s.engines.size) {id : NodeId} {waveform : Waveform}
    {frequency : Float} (hmade : hosts[i]? = some (toneHost id waveform frequency))
    (hid : s.nodes.size ≤ id) : Unplayed c id ((s.engine c).nodes.size + i) t where
  node := by
    rw [h.started, Studio.started, Array.getElem?_eq_none hid]
    rfl
  host := by
    rw [h.engine_of hc, Engine.getElem?_added, hmade]
    rfl

-- A bank needs a partial; without one nothing is done. Each partial has a tone and a gain for it,
-- with the waveforms and gains taken in turn, and what comes of the tones is summed and goes through
-- one gain more, which is where the bank is heard. A start of the new bank starts the tones in turn,
-- at the time that is given, and nothing else.
theorem sums_partials (c : ContextId) (ratios : List Float) (settings : BankSettings) (s : Studio)
    (hc : c < s.engines.size) :
    let base := (s.engine c).nodes.size
    let n := ratios.length
    (ratios = [] → Node.bank c ratios settings s = .error (.config .emptyBank) s) ∧
    (ratios ≠ [] → ∃ node t, Node.bank c ratios settings s = .ok node t ∧
      Extends c (told settings base ratios) (held settings s.nodes.size ratios) (3 * n + 3) s t ∧
      (∀ i ratio, ratios[i]? = some ratio →
        (t.engine c).param? (base + 2 * i) .frequency = some (ratio * settings.frequency) ∧
        (t.engine c).param? (base + 2 * i + 1) .gain = some (loudness settings i)) ∧
      (t.engine c).param? (base + 2 * n + 2) .gain = some (share settings n) ∧
      node.outputHost = base + 2 * n + 2 ∧
      ∀ time : Float,
        (time.isFinite = true → ∃ u, node.start time t = .ok () u ∧
          Receives c ((List.range n).map fun i => .start (base + 2 * i) time) t u) ∧
        (time.isFinite = false → node.start time t = .error (.invalidTime node.label time) t)) := by
  intro base n
  have hmade := ends_bank hc settings ratios
  cases hact : Node.bank c ratios settings s with
  | error e t =>
      obtain ⟨hempty, rfl, rfl⟩ := ends_of_error hact hmade
      exact ⟨fun _ => rfl, fun hsome => absurd hempty hsome⟩
  | ok node t =>
      obtain ⟨hsome, rfl, ht⟩ := ends_of_ok hact hmade
      have hn : n ≠ 0 := fun hzero => hsome (List.length_eq_zero_iff.1 hzero)
      refine ⟨fun hempty => absurd hempty hsome, fun _ => ⟨_, t, rfl, ht, fun i ratio hratio => ?_,
        ?_, rfl, fun time => ⟨fun htime => ?_, fun htime => ?_⟩⟩⟩
      · obtain ⟨htone, hlevel⟩ := held_at settings s.nodes.size hratio
        rw [ht.engine_of hc, Nat.add_assoc, Engine.param?_added htone, Engine.param?_added hlevel]
        exact ⟨rfl, rfl⟩
      · rw [ht.engine_of hc, Nat.add_assoc,
          Engine.param?_added (held_last settings s.nodes.size ratios)]
        rfl
      · have hunplayed : ∀ k ∈ List.range n,
            Unplayed c (s.nodes.size + 3 * k) (base + 2 * k) t := fun k hk =>
          tone_unplayed ht hc (held_at settings s.nodes.size
            (List.getElem?_eq_getElem (List.mem_range.1 hk))).1 (Nat.le_add_right _ _)
        rw [start_whole htime hn]
        obtain ⟨⟨⟩, u, hu, hreceives⟩ := exists_of_ends
          (ends_starts time (ht.contexts ▸ hc) List.nodup_range hunplayed)
        exact ⟨u, hu, hreceives⟩
      · rw [Node.start_eq]
        refine bind_of_error ?_
        rw [Node.checkTime_eq, htime]
        rfl

-- Three partials with two gains.
def organ : BankSettings := ⟨110, [0.5, 0.25], [], true⟩

theorem organ_sums : 0 < (Studio.new 44100).engines.size ∧
    ∃ node t u, Node.bank 0 [1, 2, 3] organ (.new 44100) = .ok node t ∧
      (t.engine 0).param? 3 .frequency = some (2 * 110) ∧
      (t.engine 0).param? 6 .gain = some 0.5 ∧ (t.engine 0).param? 9 .gain = some (1 / 3) ∧
      node.outputHost = 9 ∧ node.start 1 t = .ok () u ∧
      Receives 0 [.start 1 1, .start 3 1, .start 5 1] t u := by
  have hopen : 0 < (Studio.new 44100).engines.size := by decide
  obtain ⟨node, t, hact, -, hstrands, hlast, houtput, hstart⟩ :=
    (sums_partials 0 [1, 2, 3] organ (.new 44100) hopen).2 (by simp)
  obtain ⟨u, hu, hreceives⟩ := (hstart 1).1 (by decide +kernel)
  exact ⟨hopen, node, t, u, hact, (hstrands 1 2 rfl).1, (hstrands 2 3 rfl).2, hlast, houtput, hu,
    hreceives⟩

end Bank

end Patchbay
