import Patchbay.Proofs.Clock.Advance

namespace Patchbay

open Act

namespace HostCall

variable {call : HostCall} {node : HostNode}

-- The host node that a call goes to. A connection goes to its source.
def host : HostCall → HostId
  | .create id _ | .connect id _ | .disconnect id | .start id _ | .stop id _ | .setParam id _ _
  | .setBuffer id | .schedule id _ _ => id

def creation? : HostCall → Option (HostId × String)
  | .create id kind => some (id, kind)
  | _ => none

def setting? (host : HostId) (param : Param) : HostCall → Option Float
  | .setParam id p x => if id = host ∧ p = param then some x else none
  | _ => none

def stopOf? (host : HostId) : HostCall → Option Float
  | .stop id time => if id = host then some time else none
  | _ => none

-- What a call makes of the node that it goes to.
def mark : HostCall → HostNode → HostNode
  | .disconnect _, node => { node with disconnected := true }
  | .start _ time, node => { node with startedAt := some time }
  | .stop _ time, node => { node with stopAt := some time }
  | .setParam _ param x, node => node.setValue param x
  | .setBuffer _, node => { node with hasBuffer := true }
  | .create _ _, node | .connect _ _, node | .schedule _ _ _, node => node

-- What the host asks of that node before.
def Suits (node : HostNode) : HostCall → Prop
  | .start _ _ => node.startedAt = none
  | .stop _ _ => node.startedAt.isSome = true
  | .setParam _ param _ => node.hasParam param = true
  | _ => True

theorem host_of_setting {host : HostId} {param : Param} {x : Float}
    (h : call.setting? host param = some x) : call.host = host := by
  cases call with
  | setParam id p y =>
      rw [setting?, Option.ite_none_right_eq_some] at h
      exact h.1.1
  | _ => cases h

theorem host_of_stop {host : HostId} {time : Float} (h : call.stopOf? host = some time) :
    call.host = host := by
  cases call with
  | stop id time =>
      rw [stopOf?, Option.ite_none_right_eq_some] at h
      exact h.1
  | _ => cases h

-- Of calls to other nodes nothing is found.
theorem picks_nothing {α : Type} {calls : List HostCall} {host : HostId}
    (h : ∀ call ∈ calls, call.host ≠ host) {pick : HostCall → Option α}
    (hpick : ∀ call a, pick call = some a → call.host = host) : calls.filterMap pick = [] :=
  List.filterMap_eq_nil_iff.2 fun call hcall =>
    Option.eq_none_iff_forall_ne_some.2 fun a ha => h call hcall (hpick call a ha)

theorem kind_mark : (call.mark node).kind = node.kind := by
  cases call <;> rfl

theorem watchers_mark : (call.mark node).watchers = node.watchers := by
  cases call <;> rfl

end HostCall

-- The nodes that it was asked to create, with their kinds.
def Engine.creations (engine : Engine) : List (HostId × String) :=
  engine.calls.toList.filterMap HostCall.creation?

-- What a parameter was set to, time after time.
def Engine.settings (engine : Engine) (host : HostId) (param : Param) : List Float :=
  engine.calls.toList.filterMap (HostCall.setting? host param)

-- When a source was to stop, time after time.
def Engine.stopsOf (engine : Engine) (host : HostId) : List Float :=
  engine.calls.toList.filterMap (HostCall.stopOf? host)

namespace Engine

def kind? (engine : Engine) (host : HostId) : Option NodeKind :=
  (engine.nodes[host]?).bind HostNode.kind

def param? (engine : Engine) (host : HostId) (param : Param) : Option Float :=
  (engine.nodes[host]?).bind (·.param? param)

def stopTime? (engine : Engine) (host : HostId) : Option Float :=
  (engine.nodes[host]?).bind HostNode.stopAt

def isDisconnected (engine : Engine) (host : HostId) : Bool :=
  (engine.nodes[host]?).any HostNode.disconnected

end Engine

-- A node is as the calls to it have made it.
structure HostNode.Reflects (node : HostNode) (calls : List HostCall) (host : HostId) : Prop where
  value : ∀ param,
    node.value param = ((calls.filterMap (HostCall.setting? host param)).getLast?).getD 0
  settable : ∀ param, node.hasParam param = false →
    calls.filterMap (HostCall.setting? host param) = []
  stopAt : node.stopAt = (calls.filterMap (HostCall.stopOf? host)).getLast?
  started : node.startedAt.isSome = true ↔ ∃ time, .start host time ∈ calls
  disconnected : node.disconnected = true ↔ .disconnect host ∈ calls

namespace HostNode.Reflects

variable {node : HostNode} {calls : List HostCall} {call : HostCall} {host : HostId}

-- No call went to it yet.
theorem fresh (kind : Option NodeKind) (h : ∀ call ∈ calls, call.host ≠ host) :
    (HostNode.ofKind kind).Reflects calls host := by
  have hsettings (param : Param) : calls.filterMap (HostCall.setting? host param) = [] :=
    HostCall.picks_nothing h fun _ _ => HostCall.host_of_setting
  have hstops : calls.filterMap (HostCall.stopOf? host) = [] :=
    HostCall.picks_nothing h fun _ _ => HostCall.host_of_stop
  constructor
  case value => simp [hsettings, ofKind]
  case settable => exact fun param _ => hsettings param
  case stopAt => simp [hstops, ofKind]
  case started =>
      refine ⟨fun hstarted => Bool.noConfusion hstarted, ?_⟩
      rintro ⟨time, hmem⟩
      exact absurd rfl (h _ hmem)
  case disconnected =>
      refine ⟨fun hcut => Bool.noConfusion hcut, fun hmem => ?_⟩
      exact absurd rfl (h _ hmem)

-- A call to another node says nothing of it.
theorem other (h : node.Reflects calls host) (hne : call.host ≠ host) :
    node.Reflects (calls ++ [call]) host := by
  have hsetting (param : Param) : call.setting? host param = none :=
    Option.eq_none_iff_forall_ne_some.2 fun _ hx => hne (HostCall.host_of_setting hx)
  have hstop : call.stopOf? host = none :=
    Option.eq_none_iff_forall_ne_some.2 fun _ hx => hne (HostCall.host_of_stop hx)
  constructor
  case value => simpa [List.filterMap_append, hsetting] using h.value
  case settable => simpa [List.filterMap_append, hsetting] using h.settable
  case stopAt => simpa [List.filterMap_append, hstop] using h.stopAt
  case started =>
      rw [h.started]
      refine exists_congr fun time => ?_
      have hother : .start host time ≠ call := by rintro rfl; exact hne rfl
      simp [hother]
  case disconnected =>
      have hother : .disconnect host ≠ call := by rintro rfl; exact hne rfl
      simp [h.disconnected, hother]

-- A call to it is seen on it and in the log alike.
theorem mark (h : node.Reflects calls host) (hhost : call.host = host) (hsuits : call.Suits node) :
    (call.mark node).Reflects (calls ++ [call]) host := by
  subst hhost
  constructor
  case value =>
      intro param
      rw [List.filterMap_append, List.getLast?_append]
      cases call with
      | setParam id p x =>
          by_cases hp : p = param
          · simp [HostCall.mark, HostNode.setValue, HostCall.setting?, HostCall.host, hp]
          · have hvalue := h.value param
            simpa [HostCall.mark, HostNode.setValue, HostCall.setting?, HostCall.host, hp, Ne.symm hp]
              using hvalue
      | _ => exact h.value param
  case settable =>
      intro param hparam
      rw [List.filterMap_append]
      cases call with
      | setParam id p x =>
          have hp : p ≠ param := by
            rintro rfl
            exact Bool.noConfusion (hparam.symm.trans hsuits)
          have hbefore := h.settable param hparam
          simpa [HostCall.setting?, HostCall.host, hp] using hbefore
      | _ => simpa [HostCall.setting?] using h.settable param hparam
  case stopAt =>
      rw [List.filterMap_append, List.getLast?_append]
      cases call with
      | stop id time => simp [HostCall.mark, HostCall.stopOf?, HostCall.host]
      | _ => exact h.stopAt
  case started =>
      cases call with
      | start id time => simp [HostCall.mark, HostCall.host]
      | _ => simpa [HostCall.mark, HostNode.setValue, HostCall.host] using h.started
  case disconnected =>
      cases call with
      | disconnect id => simp [HostCall.mark, HostCall.host]
      | _ => simpa [HostCall.mark, HostNode.setValue, HostCall.host] using h.disconnected

-- Ends are not in the log.
theorem ended (h : node.Reflects calls host) (ended : Bool) (watchers : List Watcher) :
    { node with ended, watchers }.Reflects calls host :=
  ⟨h.value, h.settable, h.stopAt, h.started, h.disconnected⟩

end HostNode.Reflects

-- The call goes to a node that it suits, and into the log.
structure Engine.Accepts (engine : Engine) (call : HostCall) (after : Engine) : Prop where
  node : ∃ node, engine.nodes[call.host]? = some node ∧ call.Suits node
  nodes : after.nodes = engine.nodes.modify call.host call.mark
  calls : after.calls = engine.calls.push call

theorem Request.accepts_send {engine after : Engine} {request : Request}
    (h : request.send engine = .ok after) : engine.Accepts request.call after := by
  have hhost : request.call.host = request.host := by cases request <;> rfl
  have htouch : request.call.mark = request.touch := by cases request <;> rfl
  obtain ⟨⟨node, hnode⟩, hnodes⟩ := nodes_send h
  refine ⟨⟨node, by rw [hhost, hnode], ?_⟩, by rw [hhost, htouch, hnodes], calls_send h⟩
  have hfound {host : HostId} {found : HostNode} (h : engine.find host = .ok found)
      (hhost : host = request.host) : found = node := by
    rw [hhost, Engine.find_eq_ok, hnode] at h
    exact (Option.some_inj.1 h).symm
  cases request with
  | start id time =>
      obtain ⟨found, hat, h⟩ := ok_of_bind h
      obtain ⟨-, h⟩ := ok_of_check h
      obtain ⟨hfresh, -⟩ := ok_of_check h
      rw [hfound hat rfl] at hfresh
      exact Option.not_isSome_iff_eq_none.1 hfresh
  | stop id time =>
      obtain ⟨found, hat, h⟩ := ok_of_bind h
      obtain ⟨hstarted, -⟩ := ok_of_check h
      rw [hfound hat rfl] at hstarted
      exact Option.isSome_iff_ne_none.2 (mt Option.isNone_iff_eq_none.2 hstarted)
  | setParam id param x =>
      obtain ⟨found, hat, h⟩ := ok_of_bind h
      obtain ⟨hparam, -⟩ := ok_of_check h
      rw [hfound hat rfl, Bool.not_eq_true', Bool.not_eq_false] at hparam
      exact hparam
  | connect | setBuffer | schedule => trivial

theorem Engine.accepts_disconnect {engine after : Engine} {host : HostId}
    (h : engine.disconnect host = .ok after) : engine.Accepts (.disconnect host) after := by
  obtain ⟨node, hnode, h⟩ := ok_of_bind h
  cases h
  exact ⟨⟨node, find_eq_ok.1 hnode, trivial⟩, rfl, rfl⟩

namespace Engine

variable {engine after : Engine} {call : HostCall}

theorem mem_starts {host : HostId} {time : Float} :
    (host, time) ∈ engine.starts ↔ .start host time ∈ engine.calls.toList := by
  rw [starts, List.mem_filterMap]
  constructor
  · rintro ⟨call, hcall, heq⟩
    cases call <;> simp_all
  · exact fun h => ⟨_, h, rfl⟩

-- No source was started twice, as long as none is started that was.
theorem nodup_starts (h : (engine.starts.map Prod.fst).Nodup)
    (hcalls : after.calls = engine.calls.push call)
    (hfresh : ∀ host time, call = .start host time → ∀ early, .start host early ∉ engine.calls.toList) :
    (after.starts.map Prod.fst).Nodup := by
  have hstarts : after.starts = engine.starts ++ call.start?.toList := by
    rw [starts, hcalls, Array.toList_push, List.filterMap_append, ← starts]
    cases call <;> rfl
  cases call with
  | start host time =>
      have hnew : host ∉ engine.starts.map Prod.fst := by
        intro hmem
        obtain ⟨⟨_, early⟩, hstart, rfl⟩ := List.mem_map.1 hmem
        exact hfresh _ time rfl early (mem_starts.1 hstart)
      rw [hstarts, List.map_append]
      refine List.nodup_append.2 ⟨h, List.nodup_cons.2 ⟨List.not_mem_nil, List.nodup_nil⟩, ?_⟩
      rintro early hearly _ hhost rfl
      obtain rfl := List.mem_singleton.1 hhost
      exact hnew hearly
  | _ => simpa [hstarts, HostCall.start?] using h

-- Before every stop of a source there is a start of it.
def Begun (calls : List HostCall) : Prop :=
  ∀ before host time rest, calls = before ++ .stop host time :: rest →
    ∃ start, .start host start ∈ before

theorem Begun.concat {calls : List HostCall} (h : Begun calls)
    (hbegun : ∀ host time, call = .stop host time → ∃ start, .start host start ∈ calls) :
    Begun (calls ++ [call]) := by
  intro before host time rest hlog
  rcases List.eq_nil_or_concat rest with rfl | ⟨early, last, rfl⟩
  · obtain ⟨rfl, hlast⟩ := List.append_inj' hlog rfl
    exact hbegun host time (List.singleton_inj.1 hlast)
  · rw [List.concat_eq_append, ← List.cons_append, ← List.append_assoc] at hlog
    exact h before host time early (List.append_inj' hlog rfl).1

-- What a host shows can be read off its log, when it has created nodes of these kinds.
structure Faithful (engine : Engine) (made : List NodeKind) : Prop where
  kinds : ∀ host : HostId,
    (engine.nodes[host]?).map HostNode.kind = (none :: made.map some)[host]?
  creations : engine.creations = (made.zipIdx 1).map fun (kind, id) => (id, kind.name)
  known : ∀ call ∈ engine.calls.toList, call.host < engine.nodes.size
  reflects : ∀ (host : HostId) node, engine.nodes[host]? = some node →
    node.Reflects engine.calls.toList host
  once : (engine.starts.map Prod.fst).Nodup
  begun : Begun engine.calls.toList

namespace Faithful

variable {made : List NodeKind}

theorem size (h : engine.Faithful made) : engine.nodes.size = made.length + 1 := by
  have hkinds : engine.nodes.toList.map HostNode.kind = none :: made.map some := by
    refine List.ext_getElem? fun host => ?_
    rw [List.getElem?_map, Array.getElem?_toList, h.kinds]
  simpa using congrArg List.length hkinds

theorem new (rate : Float) : (Engine.new rate).Faithful [] where
  kinds host := by
    cases host with
    | zero => rfl
    | succ host => simp [Engine.new]
  creations := rfl
  known _ h := by simp [Engine.new] at h
  reflects host node h := by
    cases host with
    | zero =>
        obtain rfl : HostNode.ofKind none = node := Option.some_inj.1 h
        exact .fresh none fun _ h => by simp [Engine.new] at h
    | succ host => simp [Engine.new] at h
  once := List.nodup_nil
  begun before host time rest h := by simp [Engine.new] at h

theorem accepts (h : engine.Faithful made) (hcall : engine.Accepts call after)
    (hmakes : call.creation? = none) : after.Faithful made := by
  obtain ⟨⟨node, hnode, hsuits⟩, hnodes, hcalls⟩ := hcall
  have hsize : after.nodes.size = engine.nodes.size := by rw [hnodes, Array.size_modify]
  have hlog : after.calls.toList = engine.calls.toList ++ [call] := by rw [hcalls, Array.toList_push]
  have hreflects := h.reflects call.host node hnode
  constructor
  case kinds =>
      intro host
      rw [← h.kinds, hnodes, Array.getElem?_modify]
      split
      · cases engine.nodes[host]? <;> simp [HostCall.kind_mark]
      · rfl
  case creations =>
      rw [← h.creations, Engine.creations, hlog, List.filterMap_append, ← Engine.creations]
      simp [hmakes]
  case known =>
      intro entry hentry
      rw [hlog, List.mem_append, List.mem_singleton] at hentry
      rw [hsize]
      rcases hentry with hentry | rfl
      · exact h.known entry hentry
      · exact (Array.getElem?_eq_some_iff.1 hnode).1
  case reflects =>
      intro host marked hmarked
      rw [hnodes, Array.getElem?_modify] at hmarked
      rw [hlog]
      split at hmarked
      case isTrue heq =>
          rw [← heq, hnode] at hmarked
          rw [← heq, ← Option.some_inj.1 hmarked]
          exact hreflects.mark rfl hsuits
      case isFalse hne => exact (h.reflects host marked hmarked).other hne
  case once =>
      refine nodup_starts h.once hcalls fun host time heq early hearly => ?_
      subst heq
      have hstarted := hreflects.started.2 ⟨early, hearly⟩
      rw [show node.startedAt = none from hsuits] at hstarted
      cases hstarted
  case begun =>
      rw [hlog]
      refine h.begun.concat fun host time heq => ?_
      subst heq
      exact hreflects.started.1 hsuits

theorem create (h : engine.Faithful made) (kind : NodeKind) :
    (engine.create kind).2.Faithful (made ++ [kind]) := by
  let entry : HostCall := .create engine.nodes.size kind.name
  have hcalls : (engine.create kind).2.calls = engine.calls.push entry := rfl
  have hnodes : (engine.create kind).2.nodes = engine.nodes.push (.ofKind (some kind)) := rfl
  have hlog : (engine.create kind).2.calls.toList = engine.calls.toList ++ [entry] :=
    Array.toList_push
  have hsize : (engine.create kind).2.nodes.size = engine.nodes.size + 1 := Array.size_push ..
  constructor
  case kinds =>
      intro host
      have hmade : none :: (made ++ [kind]).map some = (none :: made.map some) ++ [some kind] := by
        simp
      have hlength : (none :: made.map some).length = engine.nodes.size := by simp [h.size]
      rw [hnodes, Array.getElem?_push, hmade]
      split
      case isTrue heq => simp [heq, ← hlength, HostNode.ofKind]
      case isFalse hne =>
          rw [h.kinds]
          grind
  case creations =>
      rw [Engine.creations, hlog, List.filterMap_append, ← Engine.creations, h.creations,
        List.zipIdx_append, List.map_append]
      simp [entry, HostCall.creation?, h.size, Nat.add_comm]
  case known =>
      intro call hcall
      rw [hlog, List.mem_append, List.mem_singleton] at hcall
      rw [hsize]
      rcases hcall with hcall | rfl
      · exact Nat.lt_succ_of_lt (h.known call hcall)
      · exact Nat.lt_succ_self _
  case reflects =>
      intro host node hnode
      rw [hnodes, Array.getElem?_push] at hnode
      rw [hlog]
      split at hnode
      case isTrue heq =>
          obtain rfl := Option.some_inj.1 hnode
          have hfresh : ∀ call ∈ engine.calls.toList, call.host ≠ host :=
            fun call hcall => heq ▸ Nat.ne_of_lt (h.known call hcall)
          have hentry : entry.host = host := heq.symm
          exact (HostNode.Reflects.fresh (some kind) hfresh).mark hentry trivial
      case isFalse hne => exact (h.reflects host node hnode).other (Ne.symm hne)
  case once => exact nodup_starts h.once hcalls fun _ _ heq => HostCall.noConfusion heq
  case begun =>
      rw [hlog]
      exact h.begun.concat fun _ _ heq => HostCall.noConfusion heq

-- That time goes by is not logged.
theorem reaches {time : Float} {ends : List Ending} (h : engine.Faithful made)
    (hreach : engine.Reaches time ends after) : after.Faithful made := by
  have hkinds (host : HostId) : (after.nodes[host]?).map HostNode.kind =
      (engine.nodes[host]?).map HostNode.kind := by
    rw [hreach.nodes, Option.map_map]
    refine Option.map_congr fun node _ => ?_
    rw [Function.comp_apply]
    split <;> rfl
  have hcreations : after.creations = engine.creations := by
    rw [Engine.creations, hreach.calls, ← Engine.creations]
  have hstarts : after.starts = engine.starts := by rw [starts, hreach.calls, ← starts]
  constructor
  case kinds => exact fun host => (hkinds host).trans (h.kinds host)
  case creations => exact hcreations.trans h.creations
  case known =>
      intro call hcall
      rw [hreach.calls] at hcall
      have hnode := congrArg Option.isSome (hkinds call.host)
      rw [Option.isSome_map, Option.isSome_map, Array.getElem?_eq_getElem (h.known call hcall)] at hnode
      simpa using hnode
  case reflects =>
      intro host node hnode
      rw [hreach.nodes, Option.map_eq_some_iff] at hnode
      obtain ⟨before, hbefore, rfl⟩ := hnode
      rw [hreach.calls]
      split
      · exact (h.reflects host before hbefore).ended true []
      · exact h.reflects host before hbefore
  case once =>
      rw [hstarts]
      exact h.once
  case begun =>
      rw [hreach.calls]
      exact h.begun

theorem kind_eq (h : engine.Faithful made) (host : HostId) :
    engine.kind? host = ((none :: made.map some)[host]?).join := by
  rw [← h.kinds, kind?]
  cases engine.nodes[host]? <;> rfl

theorem created_eq (h : engine.Faithful made) : engine.created = engine.creations.length := by
  rw [created, h.size, h.creations]
  simp

-- No call goes to a node that is not there.
theorem absent (h : engine.Faithful made) {host : HostId} (hnone : engine.nodes[host]? = none) :
    ∀ call ∈ engine.calls.toList, call.host ≠ host := by
  rintro call hcall rfl
  exact Nat.not_lt.2 (Array.getElem?_eq_none_iff.1 hnone) (h.known call hcall)

theorem param_eq (h : engine.Faithful made) (host : HostId) (param : Param) :
    engine.param? host param = (engine.settings host param).getLast?.or
      (if (engine.kind? host).any (·.params.contains param) then some 0 else none) := by
  unfold param? kind? settings
  cases hnode : engine.nodes[host]? with
  | none =>
      rw [HostCall.picks_nothing (h.absent hnode) fun _ _ => HostCall.host_of_setting]
      rfl
  | some node =>
      have hreflects := h.reflects host node hnode
      have hparam : (node.kind.any (·.params.contains param)) = node.hasParam param := by
        unfold HostNode.hasParam HostNode.params
        cases node.kind <;> rfl
      rw [Option.bind_some, Option.bind_some, HostNode.param?, hparam, hreflects.value]
      cases hhas : node.hasParam param with
      | false => simp [hreflects.settable param hhas]
      | true =>
          cases (engine.calls.toList.filterMap (HostCall.setting? host param)).getLast? <;> rfl

theorem stopTime_eq (h : engine.Faithful made) (host : HostId) :
    engine.stopTime? host = (engine.stopsOf host).getLast? := by
  unfold stopTime? stopsOf
  cases hnode : engine.nodes[host]? with
  | none =>
      rw [HostCall.picks_nothing (h.absent hnode) fun _ _ => HostCall.host_of_stop]
      rfl
  | some node => exact (h.reflects host node hnode).stopAt

theorem isDisconnected_iff (h : engine.Faithful made) (host : HostId) :
    engine.isDisconnected host = true ↔ .disconnect host ∈ engine.calls.toList := by
  unfold isDisconnected
  cases hnode : engine.nodes[host]? with
  | none =>
      refine ⟨fun hcut => Bool.noConfusion hcut, fun hmem => ?_⟩
      exact absurd rfl (h.absent hnode _ hmem)
  | some node => exact (h.reflects host node hnode).disconnected

end Faithful

end Engine

-- What may be asked of a host whose log is never cleared.
inductive Operation where
  | create (kind : NodeKind)
  | disconnect (host : HostId)
  | request (request : Request)
  | advanceTo (time : Float)

namespace Operation

variable {s : Studio} {made : List NodeKind}

-- It goes to the first context.
def act : Operation → Act Unit
  | .create kind => discard (Act.createHost 0 kind)
  | .disconnect host => Act.host 0 (·.disconnect host)
  | .request asked => Act.host 0 asked.send
  | .advanceTo time => Act.advanceTo 0 time

-- What is logged if the host accepts it.
def logged? (engine : Engine) : Operation → Option HostCall
  | .create kind => some (.create engine.nodes.size kind.name)
  | .disconnect host => some (.disconnect host)
  | .request asked => some asked.call
  | .advanceTo _ => none

def kind? : Operation → Option NodeKind
  | .create kind => some kind
  | _ => none

-- One after the other, whether they are accepted or refused.
def run (rate : Float) (operations : List Operation) : Studio :=
  operations.foldl (fun s operation => operation.act.after s) (.new rate)

-- Nobody waits for the end of a source of this host, and what it shows can be read off its log.
structure Leaves (s : Studio) (made : List NodeKind) : Prop where
  opened : 0 < s.engines.size
  unwatched : ∀ (host : HostId) node, (s.engine 0).nodes[host]? = some node → node.watchers = []
  faithful : (s.engine 0).Faithful made

-- Refused, an operation has changed nothing. The clock always moves.
def Done (operation : Operation) (s : Studio) (made : List NodeKind) : Prop :=
  Ends operation.act s
    (fun _ t => Leaves t (made ++ operation.kind?.toList) ∧ (t.engine 0).calls.toList =
      (s.engine 0).calls.toList ++ (operation.logged? (s.engine 0)).toList)
    fun e t => (∃ fault, e = .host fault) ∧ (operation.logged? (s.engine 0)).isSome = true ∧
      operation.kind? = none ∧ t = s

theorem Leaves.accepts {engine : Engine} {call : HostCall} (h : Leaves s made)
    (hcall : (s.engine 0).Accepts call engine) (hmakes : call.creation? = none) :
    let t : Studio := { s with engines := s.engines.modify 0 fun _ => engine }
    Leaves t made ∧ (t.engine 0).calls.toList = (s.engine 0).calls.toList ++ [call] := by
  intro t
  have hengine : t.engine 0 = engine := by
    rw [s.engine_setEngine, if_pos ⟨rfl, h.opened⟩]
  refine ⟨⟨?_, ?_, ?_⟩, ?_⟩
  · simpa [t] using h.opened
  · intro host node hnode
    rw [hengine, hcall.nodes, Array.getElem?_modify] at hnode
    split at hnode
    · obtain ⟨before, hbefore, rfl⟩ := Option.map_eq_some_iff.1 hnode
      rw [HostCall.watchers_mark]
      exact h.unwatched host before hbefore
    · exact h.unwatched host node hnode
  · rw [hengine]
    exact h.faithful.accepts hcall hmakes
  · rw [hengine, hcall.calls, Array.toList_push]

theorem Leaves.create (h : Leaves s made) (kind : NodeKind) : Done (.create kind) s made := by
  let created : Studio :=
    { s with engines := s.engines.modify 0 fun _ => ((s.engine 0).create kind).2 }
  have hengine : created.engine 0 = ((s.engine 0).create kind).2 := by
    rw [s.engine_setEngine, if_pos ⟨rfl, h.opened⟩]
  have hact : (Operation.create kind).act s = .ok () created := rfl
  refine ends_of_eq hact ⟨⟨?_, ?_, ?_⟩, ?_⟩
  · simpa [created] using h.opened
  · intro host node hnode
    rw [hengine] at hnode
    simp only [Engine.create, Engine.record, Array.getElem?_push] at hnode
    split at hnode
    · obtain rfl := Option.some_inj.1 hnode
      rfl
    · exact h.unwatched host node hnode
  · rw [hengine]
    exact h.faithful.create kind
  · rw [hengine]
    exact Array.toList_push

theorem Leaves.advanceTo (h : Leaves s made) (time : Float) : Done (.advanceTo time) s made := by
  have hcalm : s.Undisturbed 0 time := by
    refine s.undisturbed_of_tags time h.opened fun node hnode watcher hwatcher => ?_
    obtain ⟨host, hnode⟩ := Array.getElem?_of_mem hnode
    rw [h.unwatched host node hnode] at hwatcher
    cases hwatcher
  obtain ⟨t, hact, hengine, hrest⟩ := run_advanceTo h.opened time hcalm
  have hreach := (s.engine 0).reaches time
  have hwatchers : ((s.engine 0).advance time).endDue.1.flatMap Engine.Ending.watchers = [] := by
    refine List.flatMap_eq_nil_iff.2 fun ending hending => ?_
    obtain ⟨node, -, hnode, -, -, -, hsame⟩ := hreach.first ending hending
    rw [hsame, h.unwatched _ node hnode]
  rw [hwatchers] at hrest
  refine ends_of_eq hact ⟨⟨?_, ?_, ?_⟩, ?_⟩
  · cases hrest
    simpa using h.opened
  · intro host node hnode
    rw [hengine, hreach.nodes, Option.map_eq_some_iff] at hnode
    obtain ⟨before, hbefore, rfl⟩ := hnode
    split
    · rfl
    · exact h.unwatched host before hbefore
  · rw [hengine]
    simpa [kind?] using h.faithful.reaches hreach
  · rw [hengine, hreach.calls]
    simp [logged?]

theorem Leaves.done (h : Leaves s made) (operation : Operation) : operation.Done s made := by
  cases operation with
  | create kind => exact h.create kind
  | disconnect host =>
      refine ends_host (fun engine hengine => ?_) fun fault _ => ⟨⟨fault, rfl⟩, rfl, rfl, rfl⟩
      simpa [kind?, logged?] using h.accepts (Engine.accepts_disconnect hengine) rfl
  | request asked =>
      refine ends_host (fun engine hengine => ?_) fun fault _ => ⟨⟨fault, rfl⟩, rfl, rfl, rfl⟩
      simpa [kind?, logged?] using h.accepts (Request.accepts_send hengine) (by cases asked <;> rfl)
  | advanceTo time => exact h.advanceTo time

theorem leaves_run (rate : Float) (operations : List Operation) :
    Leaves (run rate operations) (operations.filterMap kind?) := by
  induction operations using List.reverseRecOn with
  | nil =>
      have hfaithful : ((Studio.new rate).engine 0).Faithful [] := .new rate
      refine ⟨Nat.one_pos, fun host node hnode => ?_, hfaithful⟩
      cases host with
      | zero =>
          obtain rfl : HostNode.ofKind none = node := Option.some_inj.1 hnode
          rfl
      | succ host => simp [run, Studio.new, Studio.engine, Engine.new] at hnode
  | append_singleton operations operation ih =>
      have hrun : run rate (operations ++ [operation]) = operation.act.after (run rate operations) := by
        simp [run]
      have hmade : (operations ++ [operation]).filterMap kind? =
          operations.filterMap kind? ++ operation.kind?.toList := by
        rw [List.filterMap_append, List.filterMap_cons]
        cases operation.kind? <;> rfl
      rw [hrun, hmade]
      refine after_of_ends (P := fun t => Leaves t _) ?_
      refine (ih.done operation).mono (fun _ t ht => ht.1) fun e t ht => ?_
      obtain ⟨-, -, hmakes, rfl⟩ := ht
      rw [hmakes, Option.toList_none, List.append_nil]
      exact ih

end Operation

-- After whatever was asked of a host, what it shows is what its log says. Refused, the next operation
-- changes nothing; accepted, it is logged, unless it only moves the clock, which always moves.
theorem log_and_state_agree (rate : Float) (operations : List Operation) :
    let s := Operation.run rate operations
    let engine := s.engine 0
    let made := operations.filterMap Operation.kind?
    (∀ operation : Operation, Ends operation.act s
      (fun _ t => (t.engine 0).calls.toList =
        engine.calls.toList ++ (operation.logged? engine).toList)
      fun e t => (∃ fault, e = .host fault) ∧ (operation.logged? engine).isSome = true ∧ t = s) ∧
    engine.creations = (made.zipIdx 1).map (fun (kind, id) => (id, kind.name)) ∧
    engine.created = engine.creations.length ∧
    (∀ host, engine.kind? host = ((none :: made.map some)[host]?).join) ∧
    (∀ host param, engine.param? host param = (engine.settings host param).getLast?.or
      (if (engine.kind? host).any (·.params.contains param) then some 0 else none)) ∧
    (∀ host, engine.stopTime? host = (engine.stopsOf host).getLast?) ∧
    (∀ host, engine.isDisconnected host = true ↔ .disconnect host ∈ engine.calls.toList) ∧
    (engine.starts.map Prod.fst).Nodup ∧
    ∀ before host time rest, engine.calls.toList = before ++ .stop host time :: rest →
      ∃ start, .start host start ∈ before := by
  intro s engine made
  have hleaves := Operation.leaves_run rate operations
  have h := hleaves.faithful
  refine ⟨fun operation => ?_, h.creations, h.created_eq, h.kind_eq, h.param_eq, h.stopTime_eq,
    h.isDisconnected_iff, h.once, h.begun⟩
  refine (hleaves.done operation).mono (fun _ _ ht => ht.2) fun _ _ ht => ?_
  exact ⟨ht.1, ht.2.1, ht.2.2.2⟩

end Patchbay
