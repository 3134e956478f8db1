import BlockCache.OsError
import BlockCache.Span

/-!
# Errors of the cache and its storage

One type holds every failure that a caller of the cache can see, with its wording and
the error number that a caller with the conventions of a system call is given.
-/

namespace BlockCache

inductive Error where
  | io (cause : IoCause)
  | badDescriptor (fd : FileDescriptor)
  | fetch (fd : FileDescriptor) (block : BlockIndex) (detail : String)
  | oversizedBlock (fd : FileDescriptor) (block : BlockIndex) (len : Nat) (blockSize : UInt32)
  | invalidConfig (detail : String)
  | invalidArgument (detail : String)
  | rangeOverflow (detail : String)
  | invariant (detail : String)
deriving DecidableEq, Repr

namespace Error

def message : Error -> String
  | .io cause => "I/O error: " ++ cause.text
  | .badDescriptor fd => "bad file descriptor: " ++ fd.text
  | .fetch fd block detail =>
      "fetch failed for fd " ++ fd.text ++ " block " ++ block.text ++ ": " ++ detail
  | .oversizedBlock fd block len blockSize =>
      "source returned " ++ toString len ++ " bytes for fd " ++ fd.text ++ " block "
        ++ block.text ++ ", block size is " ++ toString blockSize.toNat
  | .invalidConfig detail => "invalid cache configuration: " ++ detail
  | .invalidArgument detail => "invalid argument: " ++ detail
  | .rangeOverflow detail => "range overflow: " ++ detail
  | .invariant detail => "cache invariant violated: " ++ detail

/-- The error number for callers that expect one; an operating system's own is kept. -/
def osError : Error -> OsError
  | .io (.os error) => error
  | .io (.described _) => .inputOutput
  | .badDescriptor _ => .badDescriptor
  | .fetch _ _ _ | .oversizedBlock _ _ _ _ | .invariant _ => .inputOutput
  | .invalidConfig _ | .invalidArgument _ => .invalidArgument
  | .rangeOverflow _ => .valueTooLarge

def ofRange (e : RangeError) : Error :=
  .rangeOverflow e.message

end Error
end BlockCache
