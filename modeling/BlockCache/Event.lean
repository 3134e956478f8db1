import BlockCache.Config
import BlockCache.RecencyList.Rebalance

/-!
# Events

Everything that the cache and its storage report while they work. Operations return the
events they caused as a list, in the order in which things happened; a record is the form
in which an event is written to a log.
-/

namespace BlockCache

inductive SourceEvent where
  | opened (fd : FileDescriptor) (path : String)
  | closed (fd : FileDescriptor) (wasOpen : Bool)
  | fetched (fd : FileDescriptor) (block : BlockIndex) (bytes : Nat)
deriving DecidableEq, Repr

inductive Event where
  | created (config : Config)
  | hit (fd : FileDescriptor) (block : BlockIndex) (credited : Bool)
  | fetchFailed (fd : FileDescriptor) (block : BlockIndex) (error : Error)
  | pastEnd (fd : FileDescriptor) (block : BlockIndex)
  | evicted (fd : FileDescriptor) (block : BlockIndex) (counter : UInt64)
  | admitted (fd : FileDescriptor) (block : BlockIndex) (len resident : Nat)
  | moved (move : Move)
  | read (fd : FileDescriptor) (offset : ByteOffset) (requested copied : Nat)
  | invalidated (fd : FileDescriptor) (dropped : Nat)
  | cleared
  | source (event : SourceEvent)
deriving DecidableEq, Repr

inductive Level where
  | trace
  | debug
  | info
  | warn
deriving DecidableEq, Repr

def Level.name : Level -> String
  | .trace => "TRACE"
  | .debug => "DEBUG"
  | .info => "INFO"
  | .warn => "WARN"

inductive FieldValue where
  | descriptor (fd : FileDescriptor)
  | count (n : Nat)
  | flag (b : Bool)
  | text (s : String)
deriving DecidableEq, Repr

structure Record where
  level : Level
  target : String
  name : String
  fields : List (String × FieldValue)
deriving DecidableEq, Repr

def SourceEvent.record (event : SourceEvent) : Record :=
  match event with
  | .opened fd path =>
      ⟨.debug, "fbr::block", "file_table_open", [("fd", .descriptor fd), ("path", .text path)]⟩
  | .closed fd wasOpen =>
      ⟨.debug, "fbr::block", "file_table_close",
        [("fd", .descriptor fd), ("closed", .flag wasOpen)]⟩
  | .fetched fd block bytes =>
      ⟨.trace, "fbr::block", "file_table_fetch",
        [("fd", .descriptor fd), ("block", .count block.number.toNat), ("bytes", .count bytes)]⟩

def Event.record (event : Event) : Record :=
  match event with
  | .created config =>
      cache .info "fbr_cache_new" [
        ("n_old_blk", .count config.maxOld.toNat),
        ("n_new_blk", .count config.maxNew.toNat),
        ("cache_size", .count config.capacity.toNat),
        ("block_size", .count config.blockSize.toNat)]
  | .hit fd block credited =>
      cache .trace "fbr_hit" (place fd block ++ [("credited", .flag credited)])
  | .fetchFailed fd block error =>
      cache .warn "fbr_fetch_failed" (place fd block ++ [("error", .text error.message)])
  | .pastEnd fd block => cache .trace "fbr_past_eof" (place fd block)
  | .evicted fd block counter =>
      cache .debug "fbr_evict" (place fd block ++ [("counter", .count counter.toNat)])
  | .admitted fd block len resident =>
      cache .debug "fbr_admit"
        (place fd block ++ [("len", .count len), ("resident", .count resident)])
  | .moved move =>
      cache .trace "segment_boundary_move" [
        ("slot", .count move.slot),
        ("from", .text move.source.name),
        ("to", .text move.target.name)]
  | .read fd offset requested copied =>
      cache .trace "fbr_read" [
        ("fd", .descriptor fd),
        ("offset", .count offset.number.toNat),
        ("requested", .count requested),
        ("copied", .count copied)]
  | .invalidated fd dropped =>
      cache .debug "fbr_invalidate_file" [("fd", .descriptor fd), ("dropped", .count dropped)]
  | .cleared => cache .debug "fbr_clear" []
  | .source event => event.record
where
  cache (level : Level) (name : String) (fields : List (String × FieldValue)) : Record :=
    ⟨level, "fbr::cache", name, fields⟩
  place (fd : FileDescriptor) (block : BlockIndex) : List (String × FieldValue) :=
    [("fd", .descriptor fd), ("block", .count block.number.toNat)]

end BlockCache
