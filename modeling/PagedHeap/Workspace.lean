import PagedHeap.HeapFile.Insert
import PagedHeap.Scan

/-! A workspace: a store together with the heap files held open on it, each under a name of its own.
An `Action` is one thing that can be done there, and `Workspace.perform` does it. -/
namespace PagedHeap

/-- A heap file held open, for reading by record ids, for insertion, or for scanning. -/
inductive Handle
  | reader (file : HeapFile)
  | inserter (file : HeapFile)
  | scan (scan : Scan)

namespace Handle

def file : Handle → HeapFile
  | reader file => file
  | inserter file => file
  | scan s => s.file

def close : Handle → StoreM Unit
  | reader file => HandleM.finish HeapFile.shutdown file
  | inserter file => HandleM.finish HeapFile.closeInsertion file
  | scan s => HandleM.finish Scan.close s

end Handle

/-- A store and what is held open on it, by name. -/
structure Workspace where
  store : Store
  handles : Table String Handle := {}

/-- Computations on a workspace, which may fail and then keep what they have done so far. -/
abbrev WorkM := ExceptT StoreError (StateM Workspace)

/-- What is asked of a handle is answered, unless nothing is held under its name, or something that
cannot do it. -/
inductive Reply (α : Type)
  | answer (a : α)
  | noHandle
  | wrongHandle
  deriving DecidableEq

namespace Workspace
variable {α : Type}

def onStore (act : StoreM α) : WorkM α := fun w =>
  let (result, store) := act w.store
  (result, { w with store })

/-- Opens something under a name. What was held under it before is closed after that. -/
def openAs (name : String) (opening : StoreM Handle) : WorkM Unit := fun w =>
  match opening w.store with
  | (.error e, store) => (.error e, { w with store })
  | (.ok handle, store) =>
    let store := match w.handles.find? name with
      | some old => (old.close store).2
      | none => store
    (.ok (), { store, handles := w.handles.insert name handle })

/-- Closes what is held under a name. -/
def close (name : String) : WorkM (Reply Unit) := fun w =>
  match w.handles.find? name with
  | none => (.ok .noHandle, w)
  | some handle =>
    let (result, store) := handle.close w.store
    (result.map .answer, { store, handles := w.handles.erase name })

/-- Closes what is held under a name, without reporting a failure. -/
def drop (name : String) : WorkM (Reply Unit) := tryCatch (close name) fun _ => return .answer ()

/-- Runs a computation on a heap file held open, and holds on to it as it then is. -/
def withFile (name : String) (file : HeapFile) (wrap : HeapFile → Handle) (act : FileM α) :
    WorkM (Reply α) := fun w =>
  let ((result, file), store) := act file w.store
  (result.map .answer, { store, handles := w.handles.insert name (wrap file) })

def withScan (name : String) (scan : Scan) (act : ScanM α) : WorkM (Reply α) := fun w =>
  let ((result, scan), store) := act scan w.store
  (result.map .answer, { store, handles := w.handles.insert name (.scan scan) })

def onScan (name : String) (act : ScanM α) : WorkM (Reply α) := do
  match (← get).handles.find? name with
  | none => return .noHandle
  | some (.scan scan) => withScan name scan act
  | some _ => return .wrongHandle

def insert (name : String) (record : Bytes) : WorkM (Reply RecordId) := do
  match (← get).handles.find? name with
  | none => return .noHandle
  | some (.inserter file) => withFile name file .inserter (HeapFile.insert record)
  | some _ => return .wrongHandle

def readRecord (name : String) (r : RecordId) : WorkM (Reply Bytes) := do
  match (← get).handles.find? name with
  | none => return .noHandle
  | some (.reader file) => withFile name file .reader (HeapFile.readRecord r)
  | some (.scan scan) => withScan name scan (Scan.readRecord r)
  | some (.inserter _) => return .wrongHandle

/-- Closes all that is held open, in the order of the names, and then starts over with a new cache
of so many frames over the same directory. Pages that were not written are lost. -/
def remount (frames : Nat) : WorkM Unit := do
  let names := (← get).handles.keys.mergeSort fun a b => !decide (b < a)
  names.forM fun name => do let _ ← drop name
  let disk := (← get).store.cache.disk
  let cache ← Cache.ofConfig { dataDir := disk.dir, frames, fsync := false } disk.tree
  set ({ store := { cache } } : Workspace)

end Workspace

inductive Action
  | create (file : String)
  | destroy (file : String)
  | openReader (name file : String)
  | openInserter (name file : String)
  | openScan (name file : String)
  | close (name : String)
  | drop (name : String)
  | readRecord (name : String) (id : RecordId)
  | insert (name : String) (record : Bytes)
  | start (name : String) (offset length : Nat) (type : FieldType) (value : Option Bytes)
      (comparison : Comparison)
  | next (name : String)
  | current (name : String)
  | mark (name : String)
  | reset (name : String)
  | delete (name : String)
  | update (name : String) (record : Bytes)
  | markDirty (name : String)
  | stop (name : String)
  deriving DecidableEq, Repr

inductive Answer
  | done
  | record (contents : Bytes)
  | inserted (id : RecordId)
  | found (id : Option RecordId)
  deriving DecidableEq, Repr

/-- The reply with another answer in it. -/
def Reply.map {α β : Type} (f : α → β) : Reply α → Reply β
  | answer a => answer (f a)
  | noHandle => noHandle
  | wrongHandle => wrongHandle

def Workspace.perform : Action → WorkM (Reply Answer)
  | .create file => do onStore (Store.createHeap file); return .answer .done
  | .destroy file => do onStore (Store.destroyHeap file); return .answer .done
  | .openReader name file => do
    openAs name (do return .reader (← Store.openHeap file)); return .answer .done
  | .openInserter name file => do
    openAs name (do return .inserter (← Store.openInsertion file)); return .answer .done
  | .openScan name file => do
    openAs name (do return .scan (← Store.openScan file)); return .answer .done
  | .close name => do return (← close name).map fun _ => .done
  | .drop name => do return (← drop name).map fun _ => .done
  | .readRecord name id => do return (← readRecord name id).map .record
  | .insert name record => do return (← insert name record).map .inserted
  | .start name offset length type value comparison => do
    return (← onScan name (Scan.start offset length type value comparison)).map fun _ => .done
  | .next name => do return (← onScan name Scan.next).map .found
  | .current name => do return (← onScan name Scan.current).map .record
  | .mark name => do return (← onScan name Scan.setMark).map fun _ => .done
  | .reset name => do return (← onScan name Scan.reset).map fun _ => .done
  | .delete name => do return (← onScan name Scan.delete).map fun _ => .done
  | .update name record => do return (← onScan name (Scan.update record)).map fun _ => .done
  | .markDirty name => do
    return (← onScan name (Scan.onFile HeapFile.markDirty)).map fun _ => .done
  | .stop name => do return (← onScan name Scan.stop).map fun _ => .done

end PagedHeap
