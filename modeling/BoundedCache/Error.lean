import BoundedCache.Entry
import BoundedCache.Config.Fault

/-! # Errors of a cache -/
namespace BoundedCache

/-- A read missed, the cache is closed, its configuration cannot be used, or nothing can run its
sweeper. -/
inductive CacheError
  | notFound (reason : MissReason)
  | closed
  | invalid (fault : ConfigFault)
  | noRuntime

namespace CacheError

def message : CacheError → String
  | notFound reason => s!"Key not found ({reason.label})"
  | closed => "Cache is closed"
  | invalid fault => s!"Invalid configuration: {fault.message}"
  | noRuntime => "No Tokio runtime available to run the sweeper"

def reason? : CacheError → Option MissReason
  | notFound reason => some reason
  | _ => none

end CacheError
end BoundedCache
