import PGLogical.Model.NodeFunctions
import PGLogical.Model.SyncSubscription

/-! # A subscriber made from a base backup

`pglogical_create_subscriber` creates a slot on the provider, takes a base backup or a data directory that is there
already, creates a restore point and lets the copy recover up to it. The replication origin of the new subscription is
set to the position behind the restore point, so that the slot goes on where recovery has stopped. Each step of `main`
below is one command to one of the servers, after which the program may go on or `die`. In between transactions
commit on the provider, others create restore points there, and from `create_subscription` on the apply worker of the
subscription runs. It moves the origin to the commit record of each transaction, and the slot by its feedback. Options,
configuration files other than `recovery.conf`, and starting and stopping servers are left out.
-/

namespace PGLogical.CreateSubscriber

open Nodes SubscriptionSync
open Wire (CString)

variable {Change : Type}

/-! ## The provider -/

inductive RecordKind (Change : Type) where
  | commit (change : Change)
  | restorePoint (name : NameData)

/-- A record in the log, and the position behind it. -/
structure LogRecord (Change : Type) where
  start : UInt64
  next : UInt64
  kind : RecordKind Change

/-- Records of the write-ahead log, one behind the other. -/
structure Log (Change : Type) where
  records : List (LogRecord Change)
  insert : UInt64
  forward : ∀ r ∈ records, r.start < r.next
  ordered : records.Pairwise fun r later => r.next ≤ later.start
  written : ∀ r ∈ records, r.next ≤ insert

def Log.append (log : Log Change) (next : UInt64) (kind : RecordKind Change) (longer : log.insert < next) :
    Log Change where
  records := log.records ++ [⟨log.insert, next, kind⟩]
  insert := next
  forward r inside := by
    rcases List.mem_append.mp inside with old | isNew
    · exact log.forward r old
    · rw [List.mem_singleton.mp isNew]
      exact longer
  ordered := by
    refine List.pairwise_append.mpr ⟨log.ordered, List.pairwise_singleton .., fun r old later isNew => ?_⟩
    rw [List.mem_singleton.mp isNew]
    exact log.written r old
  written r inside := by
    rcases List.mem_append.mp inside with old | isNew
    · exact UInt64.le_trans (log.written r old) (UInt64.le_of_lt longer)
    · rw [List.mem_singleton.mp isNew]
      exact UInt64.le_refl next

/-- The transactions whose commit starts between two positions. -/
def committed (records : List (LogRecord Change)) (first last : UInt64) : List Change :=
  records.filterMap fun r =>
    match r.kind with
    | .commit change => if first ≤ r.start ∧ r.start < last then some change else none
    | .restorePoint _ => none

/-- What is decoded from a position on, with the position that the subscriber's origin gets, that of the commit
record: the next position at which the transaction is still sent. -/
def streamed (records : List (LogRecord Change)) (first : UInt64) : List (UInt64 × Change) :=
  records.filterMap fun r =>
    match r.kind with
    | .commit change => if first ≤ r.start then some (r.start, change) else none
    | .restorePoint _ => none

structure RemoteInfo where
  nodeid : Oid
  nodeName : NameData
  sysid : CString
  dbname : NameData
  replicationSets : CString
deriving DecidableEq

structure Provider (Change : Type) where
  sysid : CString
  extensions : List CString
  /-- The rows of `pglogical.pglogical_node_info()`. -/
  nodeInfo : List RemoteInfo
  log : Log Change
  /-- Each slot with the position that it decodes from. -/
  slots : NameData → Option UInt64
  /-- The replication origins, with their positions if they have been used. -/
  origins : List (NameData × Option UInt64)

/-! ## The program -/

/-- A copy of the provider's files, to which recovery applies the log from `redo` on; they are consistent
from the end of the backup on. -/
structure DataDir where
  sysid : CString
  redo : UInt64
  consistent : UInt64
  origins : List (NameData × Option UInt64)

/-- What `pg_check_dir` finds. -/
inductive DirContents where
  | missing
  | empty
  | notEmpty (dir : Option DataDir)
  | inaccessible

/-- The settings of `recovery.conf` that matter here. -/
structure RecoveryConf where
  standbyMode : Bool
  primaryConninfo : Option CString
  restoreCommand : Option CString
  recoveryTargetName : Option NameData
deriving DecidableEq

structure Options where
  hashAny : Wire.Bytes → UInt32
  subscriberName : NameData
  /-- The database that the subscriber's connection string leads to. -/
  subscriberDatabase : NameData
  providerConnstr : CString
  dropSlotIfExists : Bool
  recoveryConf : Option RecoveryConf
  /-- The setting `pglogical.synchronous_commit` of the new server. -/
  synchronousCommit : Bool

/-- The slot that is created, named after the provider's database. -/
def Options.slotName (options : Options) (remote : RemoteInfo) : NameData :=
  genSlotName options.hashAny remote.dbname remote.nodeName options.subscriberName

/-- The slot of the subscription, named after its own database by `pglogical_create_subscription`. -/
def Options.subSlotName (options : Options) (remote : RemoteInfo) : NameData :=
  genSlotName options.hashAny options.subscriberDatabase remote.nodeName options.subscriberName

def getRemoteInfo (provider : Provider Change) : Except String RemoteInfo :=
  if CString.ofString "pglogical" ∉ provider.extensions then
    .error "The remote node is not configured as a pglogical provider.\n"
  else match provider.nodeInfo with
    | [] => .error "The remote database is not configured as a pglogical node.\n"
    | [remote] => .ok remote
    | _ => .error ("The remote database has multiple nodes configured. " ++
        "That is not supported with current version of pglogical.\n")

/-- Is there a data directory to use? -/
def checkDataDir : DirContents → Except String Bool
  | .missing | .empty => .ok false
  | .notEmpty none => .error "Directory exists but is not valid postgres data directory.\n"
  | .notEmpty (some _) => .ok true
  | .inaccessible => .error "Could not access directory.\n"

/-- The directory that is there has to be a copy of the provider. -/
def checkSysid (remote : RemoteInfo) : DirContents → Except String Unit
  | .notEmpty (some dir) =>
      if remote.sysid = dir.sysid then .ok ()
      else .error "Subscriber data directory is not basebackup of remote node.\n"
  | _ => .ok ()

/-- The consistent point of the new slot is at the end of the log: transactions that were running have been waited
for. -/
def initializeReplicationSlot (provider : Provider Change) (slotName : NameData) (dropSlotIfExists : Bool) :
    Except String (Provider Change) :=
  if (provider.slots slotName).isSome ∧ ¬ dropSlotIfExists then
    .error "Slot already exists, drop it or use --drop-slot-if-exists drop it automatically.\n"
  else .ok { provider with slots := Function.update provider.slots slotName (some provider.log.insert) }

/-- A file that was given is copied there first, and then written over. -/
def recoveryConf (options : Options) (slotName : NameData) : RecoveryConf :=
  if options.recoveryConf.isSome then ⟨false, none, none, some slotName⟩
  else ⟨true, some options.providerConnstr, none, some slotName⟩

/-- Recovery stops behind the first restore point of the name. -/
def recoveryTarget (records : List (LogRecord Change)) (redo : UInt64) (name : NameData) : Option (LogRecord Change) :=
  records.find? fun r =>
    match r.kind with
    | .commit _ => false
    | .restorePoint other => decide (redo ≤ r.start ∧ other = name)

/-- The new server once it has left recovery. -/
structure Clone (Change : Type) where
  applied : List Change
  origins : List (NameData × Option UInt64)

/-- The server does not start without a source of the log, nor stop recovery where the files are not consistent. As long
as it has not come to a restore point of the name it waits. -/
def catchUp (records : List (LogRecord Change)) (dir : DataDir) (conf : RecoveryConf) :
    Option (Except String (Clone Change)) :=
  if ¬ conf.standbyMode ∧ conf.restoreCommand = none then
    some (.error "Postgres startup for restore point catchup failed.")
  else conf.recoveryTargetName.bind fun name => (recoveryTarget records dir.redo name).map fun target =>
    if target.next < dir.consistent then .error "Connection to database failed.\n"
    else .ok ⟨committed records 0 target.next, dir.origins⟩

/-- Drops the origins that `pg_replication_origin_status` lists, which are those with a position. -/
def removeUnwantedData (clone : Clone Change) : Clone Change :=
  { clone with origins := clone.origins.filter fun origin => origin.2.isNone }

/-- `pg_replication_origin_create`, the first half of `initialize_replication_origin`. -/
def createOrigin (clone : Clone Change) (originName : NameData) : Except String (Clone Change) :=
  if originName ∈ clone.origins.map Prod.fst then .error "Could not create replication origin.\n"
  else .ok { clone with origins := clone.origins ++ [(originName, none)] }

/-- `pg_replication_origin_advance`, the second half. -/
def advanceOrigin (clone : Clone Change) (originName : NameData) (remoteLsn : UInt64) : Clone Change :=
  { clone with origins := clone.origins.map fun origin =>
      if origin.1 = originName then (originName, some remoteLsn) else origin }

def findOrigin (clone : Clone Change) (originName : NameData) : Option UInt64 :=
  (clone.origins.find? fun origin => decide (origin.1 = originName)).bind Prod.snd

/-- What `create_subscription` leaves, with nothing to be synchronized. -/
def pglogicalSubscribe (provider : Provider Change) (clone : Clone Change) (slotName : NameData) : World Change where
  database := ⟨.init, ∅, findOrigin clone slotName, clone.applied⟩
  unflushed := []
  slot := provider.slots slotName
  gotSigterm := false
  tmpfile := false
  moments := []
  trace := []

/-- "UPDATE pglogical.local_sync_status SET sync_status = 'r'", by a session that commits synchronously. -/
def updateSyncStatus (world : World Change) : World Change :=
  world.commit true fun database => { database with
    status := .ready
    tables := database.tables.keys.foldl (fun catalog rv => setTableSyncStatus catalog rv .ready) database.tables }

/-! ## Steps -/

inductive Stage (Change : Type) where
  | checking
  | creatingSlot (remote : RemoteInfo) (useExistingDataDir : Bool)
  /-- With the end of the log when it began. -/
  | initializingDataDir (remote : RemoteInfo) (useExistingDataDir : Bool) (since : UInt64)
  | creatingRestorePoint (remote : RemoteInfo)
  | catchingUp (remote : RemoteInfo) (remoteLsn : UInt64)
  | removing (remote : RemoteInfo) (remoteLsn : UInt64) (clone : Clone Change)
  | creatingOrigin (remote : RemoteInfo) (remoteLsn : UInt64) (clone : Clone Change)
  | advancingOrigin (remote : RemoteInfo) (remoteLsn : UInt64) (clone : Clone Change)
  | subscribing (remote : RemoteInfo) (clone : Clone Change)
  | settingReady
  | done
  | died

structure State (Change : Type) where
  provider : Provider Change
  dataDir : DirContents
  stage : Stage Change
  /-- The subscription, with the name of its slot. -/
  subscription : Option (NameData × World Change)

inductive Event (Change : Type) where
  | commit (next : UInt64) (change : Change)
  | restorePoint (next : UInt64) (name : NameData)
  /-- The next command of the program, other than the two below. -/
  | tool
  /-- `pg_basebackup` returns. -/
  | baseBackup (redo consistent : UInt64)
  | createRestorePoint (next : UInt64)
  | die
  /-- An apply worker from its start to its end, which comes so far in what it is sent, and the last of the flush
  positions it has reported that the provider has received. -/
  | worker (moments : List Moment) (snapshot : String) (tables : List RangeVar) (count : ℕ)
      (reported : Option UInt64)

def Provider.write (provider : Provider Change) (next : UInt64) (kind : RecordKind Change) : Option (Provider Change) :=
  if longer : provider.log.insert < next then
    some { provider with log := provider.log.append next kind longer }
  else none

/-- The program goes on, or dies of an error. -/
def State.advance (s : State Change) : Except String (Stage Change) → State Change
  | .ok stage => { s with stage := stage }
  | .error _ => { s with stage := .died }

/-- The start of `main`, up to "Start the cloning process". -/
def startCloning (s : State Change) : Except String (Stage Change) := do
  let remote ← getRemoteInfo s.provider
  let useExistingDataDir ← checkDataDir s.dataDir
  checkSysid remote s.dataDir
  return .creatingSlot remote useExistingDataDir

def toolStep (options : Options) (s : State Change) : Option (State Change) :=
  match s.stage with
  | .checking => some (s.advance (startCloning s))
  | .creatingSlot remote useExistingDataDir =>
      match initializeReplicationSlot s.provider (options.slotName remote) options.dropSlotIfExists with
      | .ok provider => some { s with
          provider := provider
          stage := .initializingDataDir remote useExistingDataDir provider.log.insert }
      | .error _ => some { s with stage := .died }
  | .initializingDataDir remote true _ => some { s with stage := .creatingRestorePoint remote }
  | .catchingUp remote remoteLsn =>
      match s.dataDir with
      | .notEmpty (some dir) =>
          (catchUp s.provider.log.records dir (recoveryConf options (options.slotName remote))).map fun promoted =>
            s.advance (promoted.map (.removing remote remoteLsn))
      | _ => none
  | .removing remote remoteLsn clone =>
      some { s with stage := .creatingOrigin remote remoteLsn (removeUnwantedData clone) }
  | .creatingOrigin remote remoteLsn clone =>
      some (s.advance ((createOrigin clone (options.slotName remote)).map (.advancingOrigin remote remoteLsn)))
  | .advancingOrigin remote remoteLsn clone =>
      some { s with stage := .subscribing remote (advanceOrigin clone (options.slotName remote) remoteLsn) }
  | .subscribing remote clone => some { s with
      stage := .settingReady
      subscription := some (options.subSlotName remote, pglogicalSubscribe s.provider clone (options.subSlotName remote)) }
  | .settingReady => some { s with
      stage := .done
      subscription := s.subscription.map (Prod.map id updateSyncStatus) }
  | _ => none

/-- The base backup is taken after `since`, and returns behind its own end. -/
def baseBackupStep (s : State Change) (redo consistent : UInt64) : Option (State Change) :=
  match s.stage with
  | .initializingDataDir remote false since =>
      if since ≤ redo ∧ redo ≤ consistent ∧ consistent ≤ s.provider.log.insert then some { s with
        dataDir := .notEmpty (some ⟨s.provider.sysid, redo, consistent, s.provider.origins⟩)
        stage := .creatingRestorePoint remote }
      else none
  | _ => none

/-- The position behind the restore point is what the provider answers. -/
def createRestorePointStep (options : Options) (s : State Change) (next : UInt64) : Option (State Change) :=
  match s.stage with
  | .creatingRestorePoint remote =>
      (s.provider.write next (.restorePoint (options.slotName remote))).map fun provider =>
        { s with provider := provider, stage := .catchingUp remote next }
  | _ => none

/-- Where the provider starts to decode for a worker: from a new slot if the worker initialises the subscription, else
from its origin, but not in front of the slot. -/
def startPosition (provider : Provider Change) (world : World Change) : UInt64 :=
  let origin := world.database.origin.getD 0
  let slot := world.slot.getD 0
  if world.database.status = .init then provider.log.insert else if origin < slot then slot else origin

def workerStart (provider : Provider Change) (world : World Change) (moments : List Moment) (snapshot : String)
    (tables : List RangeVar) (count : ℕ) : Start Change :=
  ⟨moments, provider.log.insert, snapshot, tables,
    (streamed provider.log.records (startPosition provider world)).take count⟩

/-- What a worker leaves, however it ends. -/
def runWorker (options : Options) (world : World Change) (start : Start Change) : World Change :=
  match startWorker options.synchronousCommit (syncKind false false) options.subscriberName.str.toString start world with
  | .ok _ after => after
  | .error _ after => after

/-- The positions that a worker may report as flushed. Of the transactions in front of them that are sent to it, the
origin has come to the last since it was started, and on disk too. With nothing outstanding the position that has
been received is reported, whatever older commits are not on disk. -/
def mayReport (provider : Provider Change) (world after : World Change) (position : UInt64) : Bool :=
  decide (world.database.status = .ready ∧ position ≤ provider.log.insert) &&
    after.written.all fun database => (streamed provider.log.records (startPosition provider world)).all fun sent =>
      decide (position ≤ sent.1 ∨
        world.database.applied.length < database.applied.length ∧ sent.1 ≤ database.origin.getD 0)

/-- The provider moves the slot to the position that is reported. -/
def feedback (provider : Provider Change) (world after : World Change) : Option UInt64 → Option (World Change)
  | none => some after
  | some position => if mayReport provider world after position then some { after with slot := some position } else none

def step (options : Options) (s : State Change) : Event Change → Option (State Change)
  | .commit next change => (s.provider.write next (.commit change)).map fun provider => { s with provider := provider }
  | .restorePoint next name =>
      (s.provider.write next (.restorePoint name)).map fun provider => { s with provider := provider }
  | .tool => toolStep options s
  | .baseBackup redo consistent => baseBackupStep s redo consistent
  | .createRestorePoint next => createRestorePointStep options s next
  | .die => match s.stage with
      | .done | .died => none
      | _ => some { s with stage := .died }
  | .worker moments snapshot tables count reported => s.subscription.bind fun (slotName, world) =>
      let after := runWorker options world (workerStart s.provider world moments snapshot tables count)
      (feedback s.provider world after reported).map fun after => { s with
        provider := { s.provider with slots := Function.update s.provider.slots slotName after.slot }
        subscription := some (slotName, after) }

/-- Any provider, and anything in the place of the data directory. -/
def init (provider : Provider Change) (dataDir : DirContents) : State Change := ⟨provider, dataDir, .checking, none⟩

end PGLogical.CreateSubscriber
