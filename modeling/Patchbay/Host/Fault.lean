import Patchbay.Host.Basic

namespace Patchbay

inductive HostFault where
  | unknownNode (id : HostId)
  | noInputs (id : HostId)
  | noParam (id : HostId) (param : Param)
  | cannotStart (kind : String) (id : HostId)
  | startedAlready (kind : String) (id : HostId)
  | notStarted (kind : String) (id : HostId)
  | noBuffer (kind : String) (id : HostId)
  -- Nodes of different contexts cannot be wired.
  | acrossContexts (source target : String)

def HostFault.message : HostFault → String
  | .unknownNode id => "unknown host node " ++ hostLabel id
  | .noInputs id => hostLabel id ++ " has no inputs"
  | .noParam id param => hostLabel id ++ " has no parameter " ++ param.name
  | .cannotStart kind id => kind ++ " " ++ hostLabel id ++ " cannot be started"
  | .startedAlready kind id => kind ++ " " ++ hostLabel id ++ " already started"
  | .notStarted kind id => kind ++ " " ++ hostLabel id ++ " stopped before start"
  | .noBuffer kind id => kind ++ " " ++ hostLabel id ++ " holds no buffer"
  | .acrossContexts source target =>
    "cannot connect " ++ source ++ " to " ++ target ++ ": nodes belong to different contexts"

end Patchbay
