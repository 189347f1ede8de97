import PGLogical.Soundness.Delivery
import PGLogical.Soundness.StartupMessage

/-! # What a session tells its receiver

Callback by callback, what is written delivers what the callback was called with: the transaction, its
origin, the row. The caches of relations do not show, and neither do invalidations on either side. An
error in a callback cuts the notices short.
-/

namespace PGLogical.Transfer

open Machine Wire Native Callbacks

/-! ## The startup message -/

/-- The parameters can be read back. -/
def Readable (params : List (CString × CString)) : Prop := params ≠ [] ∧ ∀ param ∈ params, param.1.strlen ≠ 0

theorem readStartupParams_encodeParams {params : List (CString × CString)} (readable : Readable params) {fuel : ℕ}
    (enough : params.length ≤ fuel) :
    readStartupParams fuel (Startup.encodeParams params) = .ok (params, []) := by
  obtain ⟨some, named⟩ := readable
  induction params generalizing fuel with
  | nil => exact absurd rfl some
  | cons pair params ih =>
    obtain ⟨k, v⟩ := pair
    cases fuel with
    | zero => simp at enough
    | succ fuel =>
      have key : k.strlen ≠ 0 := named (k, v) (List.mem_cons_self ..)
      have more : (v.terminated ++ Startup.encodeParams params).isEmpty = false := by simp [CString.terminated]
      rw [Startup.encodeParams_cons, readStartupParams]
      refine bind_ok.mpr ⟨k, _, Startup.pqGetmsgstring_eq_ok_iff.mpr rfl, ?_⟩
      refine bind_ok.mpr ⟨(), _, ensure_true (by simpa using key) _, bind_ok.mpr ⟨_, _, rfl, ?_⟩⟩
      refine bind_ok.mpr ⟨(), _, ensure_true (by rw [more]; rfl) _, ?_⟩
      refine bind_ok.mpr ⟨v, _, Startup.pqGetmsgstring_eq_ok_iff.mpr rfl, bind_ok.mpr ⟨_, _, rfl, ?_⟩⟩
      cases params with
      | nil => rfl
      | cons next rest =>
        have left : (Startup.encodeParams (next :: rest)).isEmpty = false := by
          rw [Startup.encodeParams_cons]
          simp [CString.terminated]
        rw [left]
        have fewer : (next :: rest).length ≤ fuel := by simpa using enough
        refine bind_ok.mpr ⟨next :: rest, [], ih fewer (by simp) (fun other inside => ?_), rfl⟩
        exact named other (List.mem_cons_of_mem _ inside)

theorem length_le_encodeParams (params : List (CString × CString)) :
    params.length ≤ (Startup.encodeParams params).length := by
  induction params with
  | nil => exact Nat.le_refl _
  | cons pair params ih =>
    rw [Startup.encodeParams_cons, List.length_append, List.length_append, CString.length_terminated, List.length_cons]
    omega

theorem readMessage_startup (reader : Native.Session) (hash : PGLogicalRelationHash) (scratch : PGLogicalTupleData)
    {params : List (CString × CString)} (readable : Readable params) {bytes : Bytes}
    (written : writeStartupMessage params [] = .ok ((), bytes)) :
    readMessage reader hash scratch bytes = .ok ((.startup params, hash), []) := by
  have body : readStartup (1 :: Startup.encodeParams params) = .ok (params, []) := by
    refine bind_ok.mpr ⟨1, Startup.encodeParams params, rfl, ?_⟩
    refine bind_ok.mpr ⟨(), _, ensure_true rfl _, bind_ok.mpr ⟨_, _, rfl, ?_⟩⟩
    exact readStartupParams_encodeParams readable (length_le_encodeParams params)
  rw [Startup.writeStartupMessage_ok written]
  refine bind_ok.mpr ⟨'S'.toUInt8, 1 :: Startup.encodeParams params, rfl, ?_⟩
  rw [if_neg (by decide), if_neg (by decide), if_neg (by decide), if_neg (by decide), if_neg (by decide),
    if_neg (by decide), if_neg (by decide), if_pos rfl]
  exact bind_ok.mpr ⟨params, [], body, rfl⟩

/-! ## The callbacks -/

section Callbacks

variable {server : Server} {session : LocalCatalog} {publication : Publication server.catalog session}
variable {data : Callbacks.PGLogicalOutputData} {ctx : Context}

/-- The startup message comes with the first BEGIN. -/
def startupNotice (sent : Bool) : List Notice := if sent then [] else [.startup]

/-- The origin, if it is to be sent. -/
def originNotice (server : Server) (data : Callbacks.PGLogicalOutputData) (txn : Json.ReorderBufferTXN) : List Notice :=
  if sendsReplicationOrigin data txn then
    (server.replOriginByOid txn.originId).toList.map fun origin => .origin origin txn.originLsn
  else []

/-- A DELETE without a key is not sent, and neither is what is no row change. -/
def sendsRow {Row : Type} (change : ReorderBufferChange Row) : Bool :=
  match change.action with
  | .insert => change.newtuple.isSome
  | .update => change.newtuple.isSome
  | .delete => change.oldtuple.isSome
  | .other _ => false

def announced (server : Server) (data : Callbacks.PGLogicalOutputData) (sent : Bool) : Callback → List Notice
  | .begin txn => startupNotice sent ++ (.begin txn.toReorderBufferTXN :: originNotice server data txn)
  | .change _ _ none => []
  | .change rel change (some attList) => .describe rel :: if sendsRow change then [.row rel change attList] else []
  | .commit txn commitLsn => [.commit txn.toReorderBufferTXN commitLsn]

/-- The origin of a forwarded transaction has a name that fits, and a change is one of a published table with
values that can be read back. -/
def Publishable (publication : Publication server.catalog session) (data : Callbacks.PGLogicalOutputData) :
    Callback → Prop
  | .begin txn => sendsReplicationOrigin data txn = true →
      ∃ origin, server.replOriginByOid txn.originId = some origin ∧ origin.strlen < 255
  | .change _ _ none => True
  | .change rel change (some attList) => ∃ table ∈ publication.tables rel.relid, table.rel = rel ∧
      table.attList = attList ∧ (∀ tuple ∈ change.newtuple, Invertible server.catalog attList tuple) ∧
      ∀ tuple ∈ change.oldtuple, Invertible server.catalog attList tuple
  | .commit .. => True

theorem performs_startup (native : data.proto = .native) (readable : Readable server.prepareStartupMessage) :
    Performs publication (sendStartupMessageOnce server data) ctx (startupNotice ctx.startupMessageSent) := by
  cases sent : ctx.startupMessageSent with
  | true => exact Performs.ok (sendStartupMessageOnce_of_sent sent) (Progress.refl ctx)
  | false =>
    have split : sendStartupMessage server data =
        emit (writeStartupMessage server.prepareStartupMessage) >>= fun _ =>
          modify fun ctx => { ctx with startupMessageSent := true } := by
      simp [sendStartupMessage, emit, api, native, pglogicalInitApi]
    rw [Performs, sendStartupMessageOnce_of_unsent sent, split]
    change Performs publication _ ctx ([.startup] ++ [])
    refine Performs.bind (performs_emit fun written => ?_) fun _ mid _ => ?_
    · refine Delivers.told fun {hash} scratch _ => ?_
      exact ⟨_, hash, readMessage_startup _ hash scratch readable written, rfl⟩
    · exact Performs.ok rfl ((Progress.refl mid).congr rfl rfl rfl rfl)

theorem sendBegin_eq (txn : Json.ReorderBufferTXN) (native : data.proto = .native) :
    sendBegin server data txn = emit (pglogicalWriteBegin txn.toReorderBufferTXN) >>= fun _ =>
      if sendsReplicationOrigin data txn then emit (writeOrigin? server data txn) else pure () := by
  unfold sendBegin originBoundary emit
  split
  · simp [api, native, pglogicalInitApi]
  · simp [api, native, pglogicalInitApi]

theorem performs_origin (txn : Json.ReorderBufferTXN) (native : data.proto = .native)
    (publishable : Publishable publication data (.begin txn)) :
    Performs publication
      (if sendsReplicationOrigin data txn then emit (writeOrigin? server data txn) else pure ()) ctx
      (originNotice server data txn) := by
  unfold originNotice
  split
  · next sends =>
    obtain ⟨origin, found, short⟩ := publishable sends
    have writer : writeOrigin? server data txn = pglogicalWriteOrigin origin txn.originLsn := by
      simp [writeOrigin?, api, native, pglogicalInitApi, found]
    rw [writer, found]
    refine performs_emit fun {bytes} written => Delivers.told fun {hash} scratch _ => ?_
    obtain ⟨message, result, rfl, rfl, read⟩ :=
      (decodes_origin ⟨server.catalog.io, session⟩ hash scratch origin txn.originLsn short).roundTrip [] bytes written
    exact ⟨_, hash, read, rfl⟩
  · exact Performs.ok rfl (Progress.refl ctx)

theorem performs_begin (txn : Json.ReorderBufferTXN) (native : data.proto = .native)
    (readable : Readable server.prepareStartupMessage) (publishable : Publishable publication data (.begin txn)) :
    Performs publication (pgDecodeBeginTxn server data txn) ctx
      (announced server data ctx.startupMessageSent (.begin txn)) := by
  have split : pgDecodeBeginTxn server data txn =
      sendStartupMessageOnce server data >>= fun _ => sendBegin server data txn := rfl
  rw [split]
  refine (performs_startup native readable).bind fun _ mid _ => ?_
  rw [sendBegin_eq txn native]
  change Performs publication _ mid ([_] ++ originNotice server data txn)
  refine Performs.bind (performs_emit fun {bytes} written => ?_) fun _ last _ => performs_origin txn native publishable
  refine Delivers.told fun {hash} scratch _ => ?_
  obtain ⟨message, result, rfl, rfl, read⟩ :=
    (decodes_begin ⟨server.catalog.io, session⟩ hash scratch txn.toReorderBufferTXN).roundTrip [] bytes written
  exact ⟨_, hash, read, rfl⟩

theorem performs_commit (txn : Json.ReorderBufferTXN) (commitLsn : UInt64) (native : data.proto = .native) :
    Performs publication (pgDecodeCommitTxn server data txn commitLsn) ctx
      (announced server data ctx.startupMessageSent (.commit txn commitLsn)) := by
  have split : pgDecodeCommitTxn server data txn commitLsn =
      emit (pglogicalWriteCommit txn.toReorderBufferTXN commitLsn) >>= fun _ =>
        modify fun ctx => { ctx with cache := Output.pglogicalPruneRelmetacache ctx.cache } := by
    simp [pgDecodeCommitTxn, emit, api, native, pglogicalInitApi]
  rw [split]
  change Performs publication _ ctx ([_] ++ [])
  refine Performs.bind (performs_emit fun {bytes} written => ?_) fun _ mid _ => ?_
  · refine Delivers.told fun {hash} scratch _ => ?_
    obtain ⟨message, result, rfl, rfl, read⟩ :=
      (decodes_commit ⟨server.catalog.io, session⟩ hash scratch txn.toReorderBufferTXN commitLsn).roundTrip [] bytes written
    exact ⟨_, hash, read, rfl⟩
  · refine Performs.ok rfl ⟨[], (List.append_nil _).symm, Delivers.nil fun inStep => inStep.shrink ?_⟩
    intro relid hentry kept cached
    exact ⟨hentry, (Option.filter_eq_some_iff.mp kept).1, cached⟩

/-! ### Changes -/

/-- Looking a relation up adds an entry that is not yet cached, if there was none. -/
theorem cacheRelmeta_fewer (cache : Output.RelMetaCache) (rel : Relation) :
    ∀ relid, ∀ hentry ∈ (Output.pglogicalCacheRelmeta cache rel).2 relid, hentry.isCached = true →
      ∃ earlier ∈ cache relid, earlier.isCached = true := by
  intro relid hentry present cached
  unfold Output.pglogicalCacheRelmeta at present
  cases found : cache rel.relid with
  | some known =>
    rw [found] at present
    exact ⟨hentry, present, cached⟩
  | none =>
    simp only [found, Option.mem_def] at present
    by_cases same : relid = rel.relid
    · rw [same, Function.update_self] at present
      cases present
      cases cached
    · rw [Function.update_of_ne same] at present
      exact ⟨hentry, present, cached⟩

theorem exists_cacheRelmeta (cache : Output.RelMetaCache) (rel : Relation) :
    ∃ hentry, (Output.pglogicalCacheRelmeta cache rel).2 rel.relid = some hentry ∧
      hentry.isCached = (Output.pglogicalCacheRelmeta cache rel).1 := by
  unfold Output.pglogicalCacheRelmeta
  cases found : cache rel.relid with
  | some known => exact ⟨known, found, rfl⟩
  | none => exact ⟨_, Function.update_self .., rfl⟩

theorem sendRelation_eq (rel : Relation) (attList : Option Bitmapset)
    (writeRel : Relation → Option Bitmapset → Writer Unit) (ctx : Context) :
    sendRelation rel attList writeRel ctx = match writeRel rel attList [] with
      | .ok ((), out) => .ok () { ctx with
          preparedWrite := false, out, written := ctx.written ++ [out], cache := Output.setCached ctx.cache rel.relid }
      | .error message => .error message { ctx with preparedWrite := true, out := [] } := by
  rw [sendRelation, filled_eq]
  cases writeRel rel attList [] with
  | error message => rfl
  | ok result => rfl

theorem sendRelationOnce_eq (rel : Relation) (attList : Option Bitmapset) (native : data.proto = .native)
    (ctx : Context) :
    sendRelationOnce server data rel attList ctx =
      (if (Output.pglogicalCacheRelmeta ctx.cache rel).1 then pure ()
        else sendRelation rel attList (pglogicalWriteRel server.catalog))
        { ctx with cache := (Output.pglogicalCacheRelmeta ctx.cache rel).2 } := by
  have present : (api server data).writeRel = some (pglogicalWriteRel server.catalog) := by
    simp [api, native, pglogicalInitApi]
  unfold sendRelationOnce
  rw [present]
  rfl

variable {table : PublishedTable server.catalog session}

/-- The description of a published table, if the plugin does not take it to be known. -/
theorem performs_sendRelationOnce (native : data.proto = .native)
    (listed : table ∈ publication.tables table.rel.relid) :
    Performs publication (sendRelationOnce server data table.rel table.attList) ctx [.describe table.rel] := by
  have fewer := cacheRelmeta_fewer ctx.cache table.rel
  have looked : Delivers server publication ctx.cache [] (Output.pglogicalCacheRelmeta ctx.cache table.rel).2 [] :=
    Delivers.nil fun inStep => inStep.shrink fewer
  unfold Performs
  rw [sendRelationOnce_eq table.rel table.attList native]
  split_ifs
  · exact ⟨[], (List.append_nil _).symm, looked.known table.rel⟩
  · rw [sendRelation_eq]
    cases written : pglogicalWriteRel server.catalog table.rel table.attList [] with
    | error message => exact ⟨[], List.nil_prefix, [], (List.append_nil _).symm, looked⟩
    | ok result =>
      refine ⟨[result.2], rfl, looked.append (Delivers.message fun {hash} scratch inStep => ?_)⟩
      obtain ⟨message, after, appended, rfl, read⟩ := (decodes_relation server.catalog ⟨server.catalog.io, session⟩ hash
        scratch table.rel table.attList table.namespaceName).roundTrip [] result.2 written
      rw [List.nil_append] at appended
      rw [appended]
      exact ⟨_, _, read, inStep.describe listed, [[_]], rfl, .cons (.inr ⟨table.rel, rfl, .inr rfl⟩) .nil⟩

/-- Behind it the plugin takes the table to be known. -/
theorem cached_of_sendRelationOnce {rel : Relation} {attList : Option Bitmapset} {mid : Context}
    (native : data.proto = .native) (sent : sendRelationOnce server data rel attList ctx = .ok () mid) :
    ∃ hentry ∈ mid.cache rel.relid, hentry.isCached = true := by
  obtain ⟨hentry, present, cached⟩ := exists_cacheRelmeta ctx.cache rel
  rw [sendRelationOnce_eq rel attList native] at sent
  split_ifs at sent with hit
  · cases sent
    exact ⟨hentry, present, cached.trans hit⟩
  · rw [sendRelation_eq] at sent
    cases written : pglogicalWriteRel server.catalog rel attList [] with
    | error message =>
      rw [written] at sent
      cases sent
    | ok result =>
      rw [written] at sent
      cases sent
      refine ⟨{ hentry with isCached := true }, ?_, rfl⟩
      simp [Output.setCached, present]

/-- A row message of a described table. -/
theorem delivers_row {change : ReorderBufferChange (HeapTuple table.rel.desc)} {writer : Writer Unit} {bytes : Bytes}
    {cache : Output.RelMetaCache} (native : data.proto = .native)
    (listed : table ∈ publication.tables table.rel.relid)
    (cached : ∃ hentry ∈ cache table.rel.relid, hentry.isCached = true)
    (newInvertible : ∀ tuple ∈ change.newtuple, Invertible server.catalog table.attList tuple)
    (oldInvertible : ∀ tuple ∈ change.oldtuple, Invertible server.catalog table.attList tuple)
    (chosen : rowWriter? server data table.rel change table.attList = some writer) (written : writer [] = .ok ((), bytes)) :
    Delivers server publication cache [bytes] cache [.row table.rel change table.attList] := by
  refine Delivers.told fun {hash} scratch inStep => ?_
  obtain ⟨hentry, present, isCached⟩ := cached
  obtain ⟨other, found, entry, describes⟩ := inStep.known table.rel.relid hentry present isCached
  obtain rfl : table = other := Option.some.inj (listed.symm.trans found)
  unfold rowWriter? at chosen
  cases action : change.action with
  | insert =>
    rw [action] at chosen
    obtain ⟨newtuple, isNew, rfl⟩ := Option.map_eq_some_iff.mp chosen
    simp only [api, native, pglogicalInitApi] at written
    have decodes : Decodes (pglogicalWriteInsert server.catalog data.toPGLogicalOutputData table.rel newtuple table.attList)
        (readMessage ⟨server.catalog.io, session⟩ hash scratch) _ :=
      decodes_insert table.opens table.columns describes (newInvertible newtuple isNew)
    obtain ⟨message, ⟨_, hash'⟩, rfl, ⟨opened, newtup, rfl, described, attmap, received⟩, read⟩ :=
      decodes.roundTrip [] bytes written
    refine ⟨_, hash', read, action, namesTable_of_describes described attmap read rfl, fun tuple isTuple => ?_⟩
    cases isNew.symm.trans isTuple
    exact received
  | update =>
    rw [action] at chosen
    obtain ⟨newtuple, isNew, rfl⟩ := Option.map_eq_some_iff.mp chosen
    simp only [api, native, pglogicalInitApi] at written
    have decodes : Decodes (pglogicalWriteUpdate server.catalog data.toPGLogicalOutputData table.rel change.oldtuple
        newtuple table.attList) (readMessage ⟨server.catalog.io, session⟩ hash scratch) _ :=
      decodes_update table.opens table.columns describes oldInvertible (newInvertible newtuple isNew)
    obtain ⟨message, ⟨_, hash'⟩, rfl, ⟨opened, oldtup, newtup, rfl, described, attmap, oldReceived, received⟩, read⟩ :=
      decodes.roundTrip [] bytes written
    refine ⟨_, hash', read, action, namesTable_of_describes described attmap read rfl, oldReceived, fun tuple isTuple => ?_⟩
    cases isNew.symm.trans isTuple
    exact received
  | delete =>
    rw [action] at chosen
    obtain ⟨oldtuple, isOld, rfl⟩ := Option.map_eq_some_iff.mp chosen
    simp only [api, native, pglogicalInitApi] at written
    have decodes : Decodes (pglogicalWriteDelete server.catalog data.toPGLogicalOutputData table.rel oldtuple table.attList)
        (readMessage ⟨server.catalog.io, session⟩ hash scratch) _ :=
      decodes_delete table.opens table.columns describes (oldInvertible oldtuple isOld)
    obtain ⟨message, ⟨_, hash'⟩, rfl, ⟨opened, oldtup, rfl, described, attmap, received⟩, read⟩ :=
      decodes.roundTrip [] bytes written
    refine ⟨_, hash', read, action, namesTable_of_describes described attmap read rfl, fun tuple isTuple => ?_⟩
    cases isOld.symm.trans isTuple
    exact received
  | other kind =>
    rw [action] at chosen
    cases chosen

theorem rowWriter?_isSome (rel : Relation) (change : ReorderBufferChange (HeapTuple rel.desc))
    (attList : Option Bitmapset) : (rowWriter? server data rel change attList).isSome = sendsRow change := by
  unfold rowWriter? sendsRow
  cases change.action with
  | other kind => rfl
  | _ => exact Option.isSome_map ..

theorem performs_change {rel : Relation} {change : ReorderBufferChange (HeapTuple rel.desc)}
    {answer : Option (Option Bitmapset)} (native : data.proto = .native)
    (publishable : Publishable publication data (.change rel change answer)) :
    Performs publication (pgDecodeChange server data rel change answer) ctx
      (announced server data ctx.startupMessageSent (.change rel change answer)) := by
  cases answer with
  | none => exact Performs.ok rfl (Progress.refl ctx)
  | some attList =>
    obtain ⟨table, listed, rfl, rfl, newInvertible, oldInvertible⟩ := publishable
    change Performs publication _ ctx ([.describe table.rel] ++ _)
    refine Performs.bind (performs_sendRelationOnce native listed) fun _ mid sent => ?_
    have cached := cached_of_sendRelationOnce native sent
    have isSome : (rowWriter? server data table.rel change table.attList).isSome = sendsRow change :=
      rowWriter?_isSome table.rel change table.attList
    cases chosen : rowWriter? server data table.rel change table.attList with
    | none =>
      rw [chosen] at isSome
      rw [← isSome]
      exact Performs.ok rfl (Progress.refl mid)
    | some writer =>
      rw [chosen] at isSome
      rw [← isSome]
      exact performs_emit fun written =>
        delivers_row native listed cached newInvertible oldInvertible chosen written

theorem performs_call {callback : Callback} (native : data.proto = .native)
    (readable : Readable server.prepareStartupMessage) (publishable : Publishable publication data callback) :
    Performs publication (call server data callback) ctx (announced server data ctx.startupMessageSent callback) := by
  cases callback with
  | begin txn => exact performs_begin txn native readable publishable
  | change rel change answer => exact performs_change native publishable
  | commit txn commitLsn => exact performs_commit txn commitLsn native

/-! ### The startup flag -/

/-- The computation leaves the flag alone. -/
def KeepsFlag {α : Type} (m : CallbackM α) : Prop := ∀ sent, Preserves (fun ctx => ctx.startupMessageSent = sent) m

theorem KeepsFlag.bind {α β : Type} {m : CallbackM α} {k : α → CallbackM β} (first : KeepsFlag m)
    (second : ∀ value, KeepsFlag (k value)) : KeepsFlag (m >>= k) :=
  fun sent => (first sent).bind fun value => second value sent

theorem keepsFlag_pure {α : Type} (value : α) : KeepsFlag (pure value : CallbackM α) := fun _ => .pure value

theorem keepsFlag_fill (w : Writer Unit) : KeepsFlag (fill w) := by
  intro sent ctx before
  unfold fill
  split
  · exact before
  · exact before

theorem keepsFlag_write : KeepsFlag outputPluginWrite := by
  intro sent ctx before
  unfold outputPluginWrite
  split
  · exact before
  · exact before

theorem keepsFlag_emit (w : Writer Unit) : KeepsFlag (emit w) :=
  KeepsFlag.bind (fun _ _ before => before) fun _ => (keepsFlag_fill w).bind fun _ => keepsFlag_write

theorem keepsFlag_sendBegin (txn : Json.ReorderBufferTXN) (native : data.proto = .native) :
    KeepsFlag (sendBegin server data txn) := by
  rw [sendBegin_eq txn native]
  refine (keepsFlag_emit _).bind fun _ => ?_
  split
  · exact keepsFlag_emit _
  · exact keepsFlag_pure ()

theorem keepsFlag_change (rel : Relation) (change : ReorderBufferChange (HeapTuple rel.desc))
    (answer : Option (Option Bitmapset)) : KeepsFlag (pgDecodeChange server data rel change answer) := by
  cases answer with
  | none => exact keepsFlag_pure ()
  | some attList =>
    refine .bind ?_ fun _ => ?_
    · unfold sendRelationOnce
      split
      · exact keepsFlag_pure ()
      · refine .bind (fun _ _ before => before) fun hit => ?_
        cases hit with
        | true => exact keepsFlag_pure ()
        | false =>
          exact .bind (fun _ _ before => before) fun _ => (keepsFlag_fill _).bind fun _ =>
            .bind (fun _ _ before => before) fun _ => keepsFlag_write
    · cases rowWriter? server data rel change attList with
      | none => exact keepsFlag_pure ()
      | some writer => exact keepsFlag_emit writer

theorem keepsFlag_commit (txn : Json.ReorderBufferTXN) (commitLsn : UInt64) :
    KeepsFlag (pgDecodeCommitTxn server data txn commitLsn) :=
  KeepsFlag.bind (fun _ _ before => before) fun _ => (keepsFlag_fill _).bind fun _ =>
    keepsFlag_write.bind fun _ _ _ before => before

theorem sent_of_startupOnce {mid : Context} (done : sendStartupMessageOnce server data ctx = .ok () mid) :
    mid.startupMessageSent = true := by
  cases sent : ctx.startupMessageSent with
  | true =>
    rw [sendStartupMessageOnce_of_sent sent] at done
    cases done
    exact sent
  | false =>
    rw [sendStartupMessageOnce_of_unsent sent] at done
    obtain ⟨_, _, -, done⟩ := run_bind_eq_ok.mp done
    obtain ⟨_, _, -, done⟩ := run_bind_eq_ok.mp done
    obtain ⟨_, _, -, done⟩ := run_bind_eq_ok.mp done
    cases done
    rfl

def isBegin : Callback → Bool
  | .begin _ => true
  | _ => false

theorem KeepsFlag.ok {α : Type} {m : CallbackM α} {value : α} {after : Context} (kept : KeepsFlag m)
    (done : m ctx = .ok value after) : after.startupMessageSent = ctx.startupMessageSent := by
  have same := @kept ctx.startupMessageSent ctx rfl
  rwa [done] at same

/-- Behind the first BEGIN the startup message is out. -/
theorem sent_of_call {callback : Callback} {after : Context} (native : data.proto = .native)
    (done : call server data callback ctx = .ok () after) :
    after.startupMessageSent = (ctx.startupMessageSent || isBegin callback) := by
  cases callback with
  | begin txn =>
    obtain ⟨_, mid, started, begun⟩ := run_bind_eq_ok.mp
      (show (sendStartupMessageOnce server data >>= fun _ => sendBegin server data txn) ctx = .ok () after from done)
    rw [(keepsFlag_sendBegin txn native).ok begun, sent_of_startupOnce started, isBegin, Bool.or_true]
  | change rel change answer =>
    exact ((keepsFlag_change rel change answer).ok done).trans (Bool.or_false _).symm
  | commit txn commitLsn => exact ((keepsFlag_commit txn commitLsn).ok done).trans (Bool.or_false _).symm

/-! ## Sessions -/

/-- What the callbacks of a session announce, one after the other. -/
def announcements (server : Server) (data : Callbacks.PGLogicalOutputData) : Bool → List Occurrence → List Notice
  | _, [] => []
  | sent, .callback callback :: rest =>
      announced server data sent callback ++ announcements server data (sent || isBegin callback) rest
  | sent, .invalidate _ :: rest => announcements server data sent rest

theorem performs_invalidate (relid : Oid) :
    Performs publication (occur server data (.invalidate relid)) ctx [] := by
  refine Performs.ok rfl ⟨[], (List.append_nil _).symm, Delivers.nil fun inStep => inStep.shrink ?_⟩
  intro other hentry present cached
  simp only [Output.relmetaCacheCallback] at present
  cases found : ctx.cache relid with
  | none =>
    rw [found] at present
    exact ⟨hentry, present, cached⟩
  | some known =>
    simp only [found, Option.mem_def] at present
    by_cases same : other = relid
    · subst same
      rw [Function.update_self] at present
      cases present
      exact ⟨known, found, cached⟩
    · rw [Function.update_of_ne same] at present
      exact ⟨hentry, present, cached⟩

theorem performs_decoding {occurrences : List Occurrence} (native : data.proto = .native)
    (readable : Readable server.prepareStartupMessage)
    (publishable : ∀ callback, .callback callback ∈ occurrences → Publishable publication data callback) :
    Performs publication (decoding server data occurrences) ctx
      (announcements server data ctx.startupMessageSent occurrences) := by
  induction occurrences generalizing ctx with
  | nil => exact Performs.ok rfl (Progress.refl ctx)
  | cons occurrence rest ih =>
    have later : ∀ callback, .callback callback ∈ rest → Publishable publication data callback :=
      fun callback inside => publishable callback (List.mem_cons_of_mem _ inside)
    show Performs publication (occur server data occurrence >>= fun _ => decoding server data rest) ctx _
    cases occurrence with
    | callback callback =>
      refine (performs_call native readable (publishable callback (List.mem_cons_self ..))).bind fun _ mid done => ?_
      rw [← sent_of_call native done]
      exact ih later
    | invalidate relid =>
      change Performs publication _ ctx ([] ++ _)
      refine Performs.bind (performs_invalidate relid) fun _ mid done => ?_
      cases done
      exact ih later

end Callbacks

section Session

variable {server : Server} {session : LocalCatalog} {data : Callbacks.PGLogicalOutputData}

/-- Nothing that the plugin takes to be known is left from an earlier session. -/
def Fresh (cache : Output.RelMetaCache) : Prop := ∀ relid, ∀ hentry ∈ cache relid, hentry.isCached = false

theorem Fresh.inStep {cache : Output.RelMetaCache} (fresh : Fresh cache)
    {publication : Publication server.catalog session} {hash : PGLogicalRelationHash} (apart : publication.Apart hash) :
    InStep publication cache hash := by
  refine ⟨apart, fun relid hentry present cached => ?_⟩
  rw [fresh relid hentry present] at cached
  cases cached

/-- Whatever a session of the native protocol has written, the worker reads to the end if its cache keeps the published
tables apart, and it reads what the callbacks were called with: the transactions, origins and rows in order, each row
with the local table of its relation and its columns by name, and in front of a row at most a RELATION message. If the
session has ended with an error, what was written before is read so. Invalidations on either side do not show. -/
theorem session_told (publication : Publication server.catalog session) (native : data.proto = .native)
    (readable : Readable server.prepareStartupMessage) (occurrences : List Occurrence)
    (publishable : ∀ callback, .callback callback ∈ occurrences → Publishable publication data callback)
    {cache : Output.RelMetaCache} (fresh : Fresh cache) (hash : PGLogicalRelationHash)
    (apart : publication.Apart hash) (arrivals : List Arrival)
    (arrived : arrivals.filterMap Arrival.payload =
      (stateOf (decoding server data occurrences (Context.start cache))).written) :
    ∃ received hash' told, receive ⟨server.catalog.io, session⟩ hash arrivals = .ok (received, hash') ∧
      Tells server session told received ∧ told <+: announcements server data false occurrences ∧
      ∀ after, decoding server data occurrences (Context.start cache) = .ok () after →
        told = announcements server data false occurrences := by
  have performs : Performs publication (decoding server data occurrences) (Context.start cache)
      (announcements server data false occurrences) := performs_decoding native readable publishable
  exact performs.received (fresh.inStep apart) arrived

end Session

/-! ## A session of one transaction -/

def samplePublished : PublishedTable sampleServer.catalog sampleSession where
  rel := sampleRel
  attList := none
  nspname := sampleSchema
  here := sampleHere
  namespaceName := rfl
  opens := ⟨rfl, rfl, by decide⟩
  columns := sample_columns

def samplePublication : Publication sampleServer.catalog sampleSession where
  tables := fun relid => if relid = 16400 then some samplePublished else none
  keyed := by
    intro relid table listed
    rw [Option.mem_def] at listed
    split_ifs at listed with same
    cases listed
    exact same.symm

theorem sample_apart : samplePublication.Apart (.create false) := by
  intro relid other here there _
  simp only [samplePublication, Option.isSome_ite] at here there
  exact here.trans there.symm

def sampleInsert : Callback := .change sampleRel ⟨.insert, none, some sampleTuple⟩ (some none)

/-- The table is invalidated between its rows. -/
def sampleOccurrences : List Occurrence :=
  [.callback (.begin localTxn), .callback sampleInsert, .invalidate 16400, .callback sampleInsert,
    .callback (.commit localTxn 100)]

def sampleScratch : PGLogicalTupleData := ⟨fun _ => .byval 0, fun _ => false, fun _ => true⟩

/-- What the session has written arrives. -/
def sampleArrivals : List Arrival :=
  (stateOf (decoding sampleServer sampleOutput sampleOccurrences (Context.start fun _ => none))).written.map
    (.message · sampleScratch)

theorem sample_arrived : sampleArrivals.filterMap Arrival.payload =
    (stateOf (decoding sampleServer sampleOutput sampleOccurrences (Context.start fun _ => none))).written := by
  rw [sampleArrivals, List.filterMap_map]
  exact List.filterMap_some

theorem sample_readable : Readable sampleServer.prepareStartupMessage := by
  refine ⟨by simp [sampleServer], fun param inside => ?_⟩
  obtain rfl := List.mem_singleton.mp inside
  decide

theorem sample_publishable :
    ∀ callback, .callback callback ∈ sampleOccurrences → Publishable samplePublication sampleOutput callback := by
  have insert : Publishable samplePublication sampleOutput sampleInsert := by
    refine ⟨samplePublished, rfl, rfl, rfl, ?_, by simp⟩
    rintro tuple ⟨⟩
    exact sample_invertible
  intro callback inside
  simp only [sampleOccurrences, List.mem_cons, Occurrence.callback.injEq, reduceCtorEq, List.not_mem_nil, or_false,
    false_or] at inside
  rcases inside with rfl | rfl | rfl | rfl
  · intro sends
    cases sends
  · exact insert
  · exact insert
  · trivial

theorem session_told_sample : ∃ received hash' told,
    receive ⟨sampleServer.catalog.io, sampleSession⟩ (.create false) sampleArrivals = .ok (received, hash') ∧
      Tells sampleServer sampleSession told received ∧
      told <+: announcements sampleServer sampleOutput false sampleOccurrences := by
  obtain ⟨received, hash', told, read, tells, short, -⟩ := session_told samplePublication rfl sample_readable
    sampleOccurrences sample_publishable (fun _ _ present => by cases present) (.create false) sample_apart sampleArrivals
    sample_arrived
  exact ⟨received, hash', told, read, tells, short⟩

end PGLogical.Transfer
