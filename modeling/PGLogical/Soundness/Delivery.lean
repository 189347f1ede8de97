import PGLogical.Model.Transfer
import PGLogical.Soundness.Callbacks
import PGLogical.Soundness.RelcacheInval

/-! # What messages deliver

Both sides keep a cache of relations: the plugin remembers which tables it has described, the worker
keeps the descriptions and the column maps made from them. A worker is in step if it has a description
of every relation that the plugin takes to be known. Messages deliver notices if a worker that is in
step is told these notices by them and is in step again; invalidations of its own do not disturb it.
-/

namespace PGLogical.Transfer

open Machine Wire Native Callbacks

/-! ## Published tables -/

/-- A table as the plugin sees it, with the columns that are sent, and the table of the subscriber. -/
structure PublishedTable (catalog : Catalog) (session : LocalCatalog) where
  rel : Relation
  attList : Option Bitmapset
  nspname : NameData
  here : LocalRelation
  namespaceName : catalog.getNamespaceName rel.relnamespace = some nspname
  opens : Opens session nspname.str rel.relname.str here
  columns : SameColumns here.desc (rel.desc.sentAttributes attList)

/-- The published tables by identifier. -/
structure Publication (catalog : Catalog) (session : LocalCatalog) where
  tables : Oid → Option (PublishedTable catalog session)
  keyed : ∀ relid, ∀ table ∈ tables relid, table.rel.relid = relid

section Known

variable {catalog : Catalog} {session : LocalCatalog} {hash hash' : PGLogicalRelationHash}
variable {table : PublishedTable catalog session}

/-- The worker has a description of the table. -/
def PublishedTable.Known (table : PublishedTable catalog session) (hash : PGLogicalRelationHash) : Prop :=
  ∃ entry, Describes hash table.rel table.nspname table.attList table.here entry

theorem PublishedTable.known_cacheUpdate (table : PublishedTable catalog session) (hash : PGLogicalRelationHash) :
    table.Known (pglogicalRelationCacheUpdate hash table.rel.relid table.nspname.str table.rel.relname.str
      (sentNames table.rel table.attList)) :=
  describes_cacheUpdate hash table.rel table.nspname table.attList table.here

/-- A description stands as long as the entry of the table does. -/
theorem PublishedTable.Known.congr (known : table.Known hash) (key : hash'.key = hash.key)
    (same : hash' table.rel.relid = hash table.rel.relid) : table.Known hash' := by
  obtain ⟨entry, describes⟩ := known
  exact ⟨entry, { describes with
    cached := same.trans describes.cached, remoteid := describes.remoteid.trans (congrFun key _).symm }⟩

theorem PublishedTable.Known.invalidate (known : table.Known hash) (reloid : Oid) :
    table.Known (RelcacheInval.pglogicalRelcacheInvalidateCallback hash reloid) := by
  obtain ⟨entry, describes⟩ := known
  have cached := RelcacheInval.callback_apply hash (.refreshed reloid) table.rel.relid
  rw [describes.cached, Option.map_some] at cached
  by_cases concerned : RelcacheInval.Concerns (.refreshed reloid) entry
  · rw [if_pos concerned] at cached
    exact ⟨RelcacheInval.forget entry, { describes with cached := cached, attmap := .inl rfl }⟩
  · rw [if_neg concerned] at cached
    exact ⟨entry, { describes with cached := cached }⟩

theorem key_of_open {relid : Oid} {opened : PGLogicalRelation} {here : LocalRelation}
    (done : pglogicalRelationOpen session hash relid = .ok (opened, here, hash')) : hash'.key = hash.key := by
  unfold pglogicalRelationOpen at done
  split at done
  · cases done
  · split at done
    · obtain ⟨_, -, done⟩ := bind_eq_ok.mp done
      obtain ⟨_, -, done⟩ := bind_eq_ok.mp done
      cases done
      rfl
    · obtain ⟨_, -, done⟩ := bind_eq_ok.mp done
      cases done
      rfl

/-- Ids with one key open one relation. -/
theorem relationOpen_congr {relid other : Oid} {entry : PGLogicalRelation} (same : hash.key relid = hash.key other)
    (cached : hash other = some entry) :
    pglogicalRelationOpen session hash relid = pglogicalRelationOpen session hash other := by
  simp only [pglogicalRelationOpen, (StringHash.find_congr _ same).trans cached, cached, StringHash.enter_congr _ same]

/-- Opening any relation keeps every description. -/
theorem PublishedTable.Known.open (known : table.Known hash) {relid : Oid} {opened : PGLogicalRelation}
    {here : LocalRelation} (done : pglogicalRelationOpen session hash relid = .ok (opened, here, hash')) :
    table.Known hash' := by
  by_cases same : hash.key relid = hash.key table.rel.relid
  · obtain ⟨entry, describes⟩ := known
    obtain ⟨opened', after, again, described, -⟩ := relationOpen_describes table.opens table.columns describes
    rw [relationOpen_congr same describes.cached, again] at done
    cases done
    exact ⟨_, described⟩
  · refine known.congr (key_of_open done) ?_
    unfold pglogicalRelationOpen at done
    cases found : hash relid with
    | none =>
      rw [found] at done
      cases done
    | some entry =>
      simp only [found] at done
      split at done
      · obtain ⟨_, -, done⟩ := bind_eq_ok.mp done
        obtain ⟨_, -, done⟩ := bind_eq_ok.mp done
        cases done
        exact StringHash.enter_of_ne _ (Ne.symm same) _
      · obtain ⟨_, -, done⟩ := bind_eq_ok.mp done
        cases done
        rfl

end Known

/-! ## The caches agree -/

section Reading

variable {catalog : Catalog} {session : LocalCatalog} {publication : Publication catalog session}
variable {cache : Output.RelMetaCache} {hash hash' : PGLogicalRelationHash}

/-- The worker keeps the published tables apart. -/
def Publication.Apart (publication : Publication catalog session) (hash : PGLogicalRelationHash) : Prop :=
  ∀ relid other, (publication.tables relid).isSome → (publication.tables other).isSome →
    hash.key relid = hash.key other → relid = other

/-- Every relation that the plugin takes to be known is described at the worker. -/
structure InStep (publication : Publication catalog session) (cache : Output.RelMetaCache)
    (hash : PGLogicalRelationHash) : Prop where
  apart : publication.Apart hash
  known : ∀ relid, ∀ hentry ∈ cache relid, hentry.isCached = true → ∃ table ∈ publication.tables relid, table.Known hash

theorem InStep.map (inStep : InStep publication cache hash) (key : hash'.key = hash.key)
    (kept : ∀ table : PublishedTable catalog session, table.Known hash → table.Known hash') :
    InStep publication cache hash' := by
  refine ⟨fun relid other here there same => ?_, fun relid hentry present cached => ?_⟩
  · rw [key] at same
    exact inStep.apart relid other here there same
  · obtain ⟨table, listed, known⟩ := inStep.known relid hentry present cached
    exact ⟨table, listed, kept table known⟩

/-- A plugin that takes less to be known stays in step. -/
theorem InStep.shrink {cache' : Output.RelMetaCache} (inStep : InStep publication cache hash)
    (fewer : ∀ relid, ∀ hentry ∈ cache' relid, hentry.isCached = true →
      ∃ earlier ∈ cache relid, earlier.isCached = true) : InStep publication cache' hash := by
  refine ⟨inStep.apart, fun relid hentry present cached => ?_⟩
  obtain ⟨earlier, before, known⟩ := fewer relid hentry present cached
  exact inStep.known relid earlier before known

/-- Behind a RELATION message the plugin may take the table to be known. -/
theorem InStep.describe (inStep : InStep publication cache hash) {table : PublishedTable catalog session}
    (listed : table ∈ publication.tables table.rel.relid) :
    InStep publication (Output.setCached cache table.rel.relid)
      (pglogicalRelationCacheUpdate hash table.rel.relid table.nspname.str table.rel.relname.str
        (sentNames table.rel table.attList)) := by
  refine ⟨inStep.apart, fun relid hentry present cached => ?_⟩
  by_cases same : relid = table.rel.relid
  · rw [same]
    exact ⟨table, listed, table.known_cacheUpdate hash⟩
  · unfold Output.setCached at present
    rw [Function.update_of_ne same] at present
    obtain ⟨other, found, known⟩ := inStep.known relid hentry present cached
    refine ⟨other, found, known.congr rfl ?_⟩
    rw [publication.keyed relid other found]
    refine StringHash.enter_of_ne _ (fun shared => same (inStep.apart relid _ ?_ ?_ shared)) _
    · exact Option.isSome_of_mem found
    · exact Option.isSome_of_mem listed

/-! ## Reading row messages -/

def isRelation : Message → Bool
  | .relation _ => true
  | _ => false

/-- The relation that a row message has opened. -/
def openedRelation : Message → Option PGLogicalRelation
  | .insert rel _ => some rel
  | .update rel _ _ => some rel
  | .delete rel _ => some rel
  | _ => none

/-- Only a RELATION message describes; the rows open a relation. -/
theorem readMessage_hash {io : TypeFunctions} {scratch : PGLogicalTupleData} {bytes rest : Bytes} {message : Message}
    (read : readMessage ⟨io, session⟩ hash scratch bytes = .ok ((message, hash'), rest))
    (other : isRelation message = false) :
    (openedRelation message = none ∧ hash' = hash) ∨ ∃ relid opened here, openedRelation message = some opened ∧
      pglogicalRelationOpen session hash relid = .ok (opened, here, hash') := by
  have call : ∀ {relid : Oid} {result : PGLogicalRelation × LocalRelation × PGLogicalRelationHash} {input tail : Bytes},
      (liftM (pglogicalRelationOpen session hash relid) : Reader _) input = .ok (result, tail) →
      pglogicalRelationOpen session hash relid = .ok result := by
    intro relid result input tail called
    cases opened : pglogicalRelationOpen session hash relid with
    | error message =>
      rw [opened] at called
      cases called
    | ok found =>
      rw [opened] at called
      cases called
      rfl
  unfold readMessage at read
  obtain ⟨action, _, -, read⟩ := bind_ok.mp read
  dsimp only at read
  split_ifs at read
  · obtain ⟨_, _, -, read⟩ := bind_ok.mp read
    cases read
    exact .inl ⟨rfl, rfl⟩
  · obtain ⟨_, _, -, read⟩ := bind_ok.mp read
    cases read
    exact .inl ⟨rfl, rfl⟩
  · obtain ⟨_, _, -, read⟩ := bind_ok.mp read
    cases read
    exact .inl ⟨rfl, rfl⟩
  · obtain ⟨_, _, -, read⟩ := bind_ok.mp read
    cases read
    cases other
  · obtain ⟨_, _, row, read⟩ := bind_ok.mp read
    cases read
    obtain ⟨_, _, -, row⟩ := bind_ok.mp row
    obtain ⟨relid, _, -, row⟩ := bind_ok.mp row
    obtain ⟨_, _, -, row⟩ := bind_ok.mp row
    obtain ⟨_, _, -, row⟩ := bind_ok.mp row
    obtain ⟨⟨opened, here, after⟩, _, called, row⟩ := bind_ok.mp row
    obtain ⟨_, _, -, row⟩ := bind_ok.mp row
    cases row
    exact .inr ⟨relid, opened, here, rfl, call called⟩
  · obtain ⟨_, _, row, read⟩ := bind_ok.mp read
    cases read
    obtain ⟨_, _, -, row⟩ := bind_ok.mp row
    obtain ⟨relid, _, -, row⟩ := bind_ok.mp row
    obtain ⟨_, _, -, row⟩ := bind_ok.mp row
    obtain ⟨_, _, -, row⟩ := bind_ok.mp row
    obtain ⟨⟨opened, here, after⟩, _, called, row⟩ := bind_ok.mp row
    dsimp only at row
    split_ifs at row
    · obtain ⟨_, _, -, row⟩ := bind_ok.mp row
      obtain ⟨_, _, -, row⟩ := bind_ok.mp row
      obtain ⟨_, _, -, row⟩ := bind_ok.mp row
      obtain ⟨_, _, -, row⟩ := bind_ok.mp row
      cases row
      exact .inr ⟨relid, opened, here, rfl, call called⟩
    · obtain ⟨_, _, -, row⟩ := bind_ok.mp row
      obtain ⟨_, _, -, row⟩ := bind_ok.mp row
      cases row
      exact .inr ⟨relid, opened, here, rfl, call called⟩
  · obtain ⟨_, _, row, read⟩ := bind_ok.mp read
    cases read
    obtain ⟨_, _, -, row⟩ := bind_ok.mp row
    obtain ⟨relid, _, -, row⟩ := bind_ok.mp row
    obtain ⟨_, _, -, row⟩ := bind_ok.mp row
    obtain ⟨_, _, -, row⟩ := bind_ok.mp row
    obtain ⟨⟨opened, here, after⟩, _, called, row⟩ := bind_ok.mp row
    obtain ⟨_, _, -, row⟩ := bind_ok.mp row
    cases row
    exact .inr ⟨relid, opened, here, rfl, call called⟩
  · obtain ⟨_, _, -, read⟩ := bind_ok.mp read
    cases read
    exact .inl ⟨rfl, rfl⟩
  · cases read

/-- An opened relation is the table of its name, or was mapped before. -/
theorem reloid_of_open {relid : Oid} {opened : PGLogicalRelation} {here : LocalRelation}
    (done : pglogicalRelationOpen session hash relid = .ok (opened, here, hash')) :
    opened.reloid ≠ invalidOid ∨ ∃ table, session.heapOpenrv opened.nspname opened.relname = .ok table ∧
      opened.reloid = table.reloid := by
  unfold pglogicalRelationOpen at done
  cases found : hash relid with
  | none =>
    rw [found] at done
    cases done
  | some entry =>
    simp only [found] at done
    split at done
    · obtain ⟨table, byName, done⟩ := bind_eq_ok.mp done
      obtain ⟨_, -, done⟩ := bind_eq_ok.mp done
      cases done
      exact .inr ⟨_, byName, rfl⟩
    · next valid =>
      obtain ⟨_, -, done⟩ := bind_eq_ok.mp done
      cases done
      exact .inl valid

theorem InStep.read (inStep : InStep publication cache hash) {io : TypeFunctions} {scratch : PGLogicalTupleData}
    {bytes rest : Bytes} {message : Message}
    (read : readMessage ⟨io, session⟩ hash scratch bytes = .ok ((message, hash'), rest))
    (other : isRelation message = false) : InStep publication cache hash' := by
  rcases readMessage_hash read other with ⟨-, rfl⟩ | ⟨relid, opened, here, -, done⟩
  · exact inStep
  · exact inStep.map (key_of_open done) fun _ known => known.open done

end Reading

/-! ## What is told -/

/-- The relation a row is for: the local table of that name, its columns mapped by name. -/
structure NamesTable (catalog : Catalog) (session : LocalCatalog) (rel : Relation) (attList : Option Bitmapset)
    (opened : PGLogicalRelation) : Prop where
  nspname : ∃ nspname, catalog.getNamespaceName rel.relnamespace = some nspname ∧ opened.nspname = nspname.str
  relname : opened.relname = rel.relname.str
  attmap : ∃ here, session.heapOpenrv opened.nspname opened.relname = .ok here ∧ opened.reloid = here.reloid ∧
    opened.attmap = columnMap here.desc (sentNames rel attList)

/-- What the receiver may be told, in terms of the callbacks. -/
inductive Notice where
  | startup
  | begin (txn : Native.ReorderBufferTXN)
  | origin (origin : CString) (originLsn : UInt64)
  /-- The relation of the row that follows, which may be known. -/
  | describe (rel : Relation)
  | row (rel : Relation) (change : ReorderBufferChange (HeapTuple rel.desc)) (attList : Option Bitmapset)
  | commit (txn : Native.ReorderBufferTXN) (commitLsn : UInt64)

/-- The message is the change of the table, column by column. -/
def RowTold (catalog : Catalog) (session : LocalCatalog) (rel : Relation)
    (change : ReorderBufferChange (HeapTuple rel.desc)) (attList : Option Bitmapset) : Message → Prop
  | .insert opened newtup => change.action = .insert ∧ NamesTable catalog session rel attList opened ∧
      ∀ tuple ∈ change.newtuple, Received catalog.io opened.attmap (tuple.sentColumns attList) newtup
  | .update opened oldtup newtup => change.action = .update ∧ NamesTable catalog session rel attList opened ∧
      Option.Rel (fun old => Received catalog.io opened.attmap (old.sentColumns attList)) change.oldtuple oldtup ∧
      ∀ tuple ∈ change.newtuple, Received catalog.io opened.attmap (tuple.sentColumns attList) newtup
  | .delete opened oldtup => change.action = .delete ∧ NamesTable catalog session rel attList opened ∧
      ∀ tuple ∈ change.oldtuple, Received catalog.io opened.attmap (tuple.sentColumns attList) oldtup
  | _ => False

def Means (server : Server) (session : LocalCatalog) : Notice → Message → Prop
  | .startup, message => message = .startup server.prepareStartupMessage
  | .begin txn, message => message = .begin txn.finalLsn txn.commitTime txn.xid
  | .origin origin originLsn, message => message = .origin originLsn origin
  | .describe _, _ => False
  | .row rel change attList, message => RowTold server.catalog session rel change attList message
  | .commit txn commitLsn, message => message = .commit commitLsn txn.endLsn txn.commitTime

/-- Every notice is one message, but a relation that is known need not be described. -/
def Told (server : Server) (session : LocalCatalog) (notice : Notice) (part : List Message) : Prop :=
  (∃ message, part = [message] ∧ Means server session notice message) ∨
    ∃ rel, notice = .describe rel ∧ (part = [] ∨ part = [.relation rel.relid])

/-- The messages are those of the notices, in order. -/
def Tells (server : Server) (session : LocalCatalog) (notices : List Notice) (received : List Message) : Prop :=
  ∃ parts : List (List Message), received = parts.flatten ∧ List.Forall₂ (Told server session) notices parts

section Tells

variable {server : Server} {session : LocalCatalog} {notices notices' : List Notice} {received received' : List Message}

theorem isRelation_of_means {notice : Notice} {message : Message} (means : Means server session notice message) :
    isRelation message = false := by
  cases notice with
  | startup =>
    cases means
    rfl
  | begin txn =>
    cases means
    rfl
  | origin origin originLsn =>
    cases means
    rfl
  | describe rel => exact means.elim
  | row rel change attList =>
    cases message with
    | relation relid => exact means.elim
    | _ => rfl
  | commit txn commitLsn =>
    cases means
    rfl

theorem Tells.nil : Tells server session [] [] := ⟨[], rfl, .nil⟩

theorem Tells.eq_nil (tells : Tells server session [] received) : received = [] := by
  obtain ⟨parts, rfl, told⟩ := tells
  cases told
  rfl

theorem Tells.cons {notice : Notice} {part : List Message} (told : Told server session notice part)
    (rest : Tells server session notices received) : Tells server session (notice :: notices) (part ++ received) := by
  obtain ⟨parts, rfl, toldRest⟩ := rest
  exact ⟨part :: parts, rfl, .cons told toldRest⟩

theorem Tells.append (first : Tells server session notices received) (second : Tells server session notices' received') :
    Tells server session (notices ++ notices') (received ++ received') := by
  obtain ⟨parts, rfl, told⟩ := first
  obtain ⟨parts', rfl, told'⟩ := second
  exact ⟨parts ++ parts', List.flatten_append.symm, List.rel_append told told'⟩

theorem Tells.split {notices notices' : List Notice} {received : List Message}
    (tells : Tells server session (notices ++ notices') received) :
    ∃ early late, received = early ++ late ∧ Tells server session notices early ∧ Tells server session notices' late := by
  obtain ⟨parts, rfl, told⟩ := tells
  refine ⟨(parts.take notices.length).flatten, (parts.drop notices.length).flatten, ?_, ⟨_, rfl, ?_⟩, ⟨_, rfl, ?_⟩⟩
  · rw [← List.flatten_append, List.take_append_drop]
  · exact (List.forall₂_take_append _ _ _ told.flip).flip
  · exact (List.forall₂_drop_append _ _ _ told.flip).flip

theorem Tells.one {notice : Notice} {message : Message} (means : Means server session notice message) :
    Tells server session [notice] [message] := ⟨[[message]], rfl, .cons (.inl ⟨message, rfl, means⟩) .nil⟩

end Tells

theorem namesTable_of_describes {catalog : Catalog} {session : LocalCatalog} {table : PublishedTable catalog session}
    {hash hash' after : PGLogicalRelationHash} {opened : PGLogicalRelation} {message : Message}
    {scratch : PGLogicalTupleData} {bytes rest : Bytes}
    (describes : Describes hash table.rel table.nspname table.attList table.here opened)
    (attmap : opened.attmap = columnMap table.here.desc (sentNames table.rel table.attList))
    (read : readMessage ⟨catalog.io, session⟩ hash' scratch bytes = .ok ((message, after), rest))
    (row : openedRelation message = some opened) :
    NamesTable catalog session table.rel table.attList opened := by
  have byName : session.heapOpenrv opened.nspname opened.relname = .ok table.here := by
    rw [describes.nspname, describes.relname]
    exact table.opens.byName
  have other : isRelation message = false := by
    cases message with
    | relation relid => cases row
    | _ => rfl
  have reloid : opened.reloid = table.here.reloid := by
    rcases readMessage_hash read other with ⟨none, -⟩ | ⟨relid, opened', here, same, done⟩
    · rw [row] at none
      cases none
    · rw [row] at same
      cases same
      rcases reloid_of_open done with valid | ⟨found, sameName, same⟩
      · exact (describes.attmap.resolve_left valid).1
      · rw [byName] at sameName
        cases sameName
        exact same
  exact ⟨⟨table.nspname, table.namespaceName, describes.nspname⟩, describes.relname,
    table.here, byName, reloid, attmap⟩

/-! ## What the messages of a callback deliver -/

section Delivery

variable {server : Server} {session : LocalCatalog} {publication : Publication server.catalog session}
variable {before middle after : Output.RelMetaCache} {messages messages' : List Bytes} {notices notices' : List Notice}

/-- A worker that is in step reads the messages, whatever invalidations come in between and whatever its
stack holds; it has been told the notices, and is in step again. -/
def Delivers (server : Server) {session : LocalCatalog} (publication : Publication server.catalog session)
    (before : Output.RelMetaCache) (messages : List Bytes) (after : Output.RelMetaCache) (notices : List Notice) : Prop :=
  ∀ ⦃hash : PGLogicalRelationHash⦄ ⦃arrivals : List Arrival⦄, InStep publication before hash →
    arrivals.filterMap Arrival.payload = messages →
    ∃ received hash', receive ⟨server.catalog.io, session⟩ hash arrivals = .ok (received, hash') ∧
      InStep publication after hash' ∧ Tells server session notices received

theorem receive_message {reader : Native.Session} {hash hash' after : PGLogicalRelationHash} {bytes rest : Bytes}
    {scratch : PGLogicalTupleData} {message : Message} {arrivals : List Arrival} {received : List Message}
    (read : readMessage reader hash scratch bytes = .ok ((message, hash'), rest))
    (later : receive reader hash' arrivals = .ok (received, after)) :
    receive reader hash (.message bytes scratch :: arrivals) = .ok (message :: received, after) := by
  rw [receive, read]
  simp only [bind, Except.bind, later]

theorem receive_append {reader : Native.Session} {hash middle after : PGLogicalRelationHash}
    {arrivals arrivals' : List Arrival} {received received' : List Message}
    (first : receive reader hash arrivals = .ok (received, middle))
    (second : receive reader middle arrivals' = .ok (received', after)) :
    receive reader hash (arrivals ++ arrivals') = .ok (received ++ received', after) := by
  induction arrivals generalizing hash received with
  | nil =>
    cases first
    exact second
  | cons arrival rest ih =>
    cases arrival with
    | invalidate reloid => exact ih first
    | message bytes scratch =>
      rw [receive] at first
      obtain ⟨⟨⟨message, hash'⟩, tail⟩, read, first⟩ := bind_eq_ok.mp first
      obtain ⟨⟨more, last⟩, later, first⟩ := bind_eq_ok.mp first
      cases first
      exact receive_message read (ih later)

theorem Delivers.nil (fewer : ∀ {hash}, InStep publication before hash → InStep publication after hash) :
    Delivers server publication before [] after [] := by
  intro hash arrivals inStep none
  induction arrivals generalizing hash with
  | nil => exact ⟨[], hash, rfl, fewer inStep, Tells.nil⟩
  | cons arrival rest ih =>
    cases arrival with
    | message bytes scratch => simp [Arrival.payload] at none
    | invalidate reloid =>
      exact ih (inStep.map rfl fun _ known => known.invalidate reloid) (by simpa [Arrival.payload] using none)

theorem Delivers.append (first : Delivers server publication before messages middle notices)
    (second : Delivers server publication middle messages' after notices') :
    Delivers server publication before (messages ++ messages') after (notices ++ notices') := by
  intro hash arrivals inStep arrived
  obtain ⟨early, late, rfl, arrivedEarly, arrivedLate⟩ := List.filterMap_eq_append_iff.mp arrived
  obtain ⟨received, hash', read, inStep', told⟩ := first inStep arrivedEarly
  obtain ⟨received', hash'', read', inStep'', told'⟩ := second inStep' arrivedLate
  exact ⟨received ++ received', hash'', receive_append read read', inStep'', told.append told'⟩

/-- A single message, by what reading it does. -/
theorem Delivers.message {bytes : Bytes}
    (reads : ∀ {hash} scratch, InStep publication before hash →
      ∃ message hash', readMessage ⟨server.catalog.io, session⟩ hash scratch bytes = .ok ((message, hash'), []) ∧
        InStep publication after hash' ∧ Tells server session notices [message]) :
    Delivers server publication before [bytes] after notices := by
  intro hash arrivals inStep arrived
  obtain ⟨early, arrival, late, rfl, quiet, payload, silent⟩ := List.filterMap_eq_cons_iff.mp arrived
  obtain ⟨scratch, rfl⟩ : ∃ scratch, arrival = .message bytes scratch := by
    cases arrival with
    | message other scratch =>
      cases payload
      exact ⟨scratch, rfl⟩
    | invalidate reloid => cases payload
  have nothing : early.filterMap Arrival.payload = [] := List.filterMap_eq_nil_iff.mpr quiet
  have pause : ∀ cache, Delivers server publication cache [] cache [] := fun cache => Delivers.nil fun same => same
  obtain ⟨_, mid, skipped, inStep, toldNothing⟩ := pause before inStep nothing
  obtain ⟨message, hash', read, inStep, told⟩ := reads scratch inStep
  obtain ⟨received, last, rest, inStep, toldRest⟩ := pause after inStep silent
  refine ⟨_, last, receive_append skipped (receive_message read rest), inStep, ?_⟩
  rw [toldNothing.eq_nil, toldRest.eq_nil]
  exact told

/-- A relation that is known need not be described. -/
theorem Delivers.known (rel : Relation) (delivers : Delivers server publication before messages after []) :
    Delivers server publication before messages after [.describe rel] := by
  intro hash arrivals inStep arrived
  obtain ⟨received, hash', read, inStep, told⟩ := delivers inStep arrived
  exact ⟨received, hash', read, inStep, told.cons (.inr ⟨rel, rfl, .inl rfl⟩)⟩

/-- A message that the plugin's cache has no part in. -/
theorem Delivers.told {bytes : Bytes} {notice : Notice}
    (reads : ∀ {hash} scratch, InStep publication before hash → ∃ message hash',
      readMessage ⟨server.catalog.io, session⟩ hash scratch bytes = .ok ((message, hash'), []) ∧
        Means server session notice message) : Delivers server publication before [bytes] before [notice] := by
  refine Delivers.message fun {hash} scratch inStep => ?_
  obtain ⟨message, hash', read, means⟩ := reads scratch inStep
  exact ⟨message, hash', read, inStep.read read (isRelation_of_means means), Tells.one means⟩

end Delivery

/-! ## Performing a callback -/

section Performing

variable {server : Server} {session : LocalCatalog} {publication : Publication server.catalog session}
variable {data : Callbacks.PGLogicalOutputData} {ctx after : Context} {notices notices' : List Notice}

/-- What has been written since, a worker that is in step is told. -/
def Progress (publication : Publication server.catalog session) (ctx after : Context) (notices : List Notice) : Prop :=
  ∃ messages, after.written = ctx.written ++ messages ∧
    Delivers server publication ctx.cache messages after.cache notices

/-- An error cuts the notices short. -/
def Performs (publication : Publication server.catalog session) {α : Type} (m : CallbackM α) (ctx : Context)
    (notices : List Notice) : Prop :=
  match m ctx with
  | .ok _ after => Progress publication ctx after notices
  | .error _ after => ∃ told, told <+: notices ∧ Progress publication ctx after told

theorem Progress.refl (ctx : Context) : Progress publication ctx ctx [] :=
  ⟨[], (List.append_nil _).symm, Delivers.nil fun same => same⟩

theorem Progress.trans {mid : Context} (first : Progress publication ctx mid notices)
    (second : Progress publication mid after notices') : Progress publication ctx after (notices ++ notices') := by
  obtain ⟨messages, written, delivers⟩ := first
  obtain ⟨messages', written', delivers'⟩ := second
  exact ⟨messages ++ messages', by rw [written', written, List.append_assoc], delivers.append delivers'⟩

theorem Performs.ok {α : Type} {m : CallbackM α} {value : α} (ran : m ctx = .ok value after)
    (progress : Progress publication ctx after notices) : Performs publication m ctx notices := by
  rw [Performs, ran]
  exact progress

theorem Performs.error {α : Type} {m : CallbackM α} {message : String} (ran : m ctx = .error message after)
    (progress : Progress publication ctx after []) : Performs publication m ctx notices := by
  rw [Performs, ran]
  exact ⟨[], List.nil_prefix, progress⟩

/-- What has been written, from the start of a session on, is what the worker is told. -/
theorem Performs.received {m : CallbackM Unit} {cache : Output.RelMetaCache} {hash : PGLogicalRelationHash}
    {arrivals : List Arrival} (performs : Performs publication m (Context.start cache) notices)
    (inStep : InStep publication cache hash)
    (arrived : arrivals.filterMap Arrival.payload = (stateOf (m (Context.start cache))).written) :
    ∃ received hash' told, receive ⟨server.catalog.io, session⟩ hash arrivals = .ok (received, hash') ∧
      Tells server session told received ∧ told <+: notices ∧
      ∀ after, m (Context.start cache) = .ok () after → told = notices := by
  unfold Performs at performs
  cases done : m (Context.start cache) with
  | ok result after =>
    rw [done] at performs arrived
    obtain ⟨messages, written, delivers⟩ := performs
    obtain ⟨received, hash', read, -, told⟩ := delivers inStep (arrived.trans (written.trans (List.nil_append _)))
    exact ⟨received, hash', _, read, told, List.prefix_refl _, fun _ _ => rfl⟩
  | error message after =>
    rw [done] at performs arrived
    obtain ⟨notices, short, messages, written, delivers⟩ := performs
    obtain ⟨received, hash', read, -, told⟩ := delivers inStep (arrived.trans (written.trans (List.nil_append _)))
    refine ⟨received, hash', notices, read, told, short, fun _ finished => ?_⟩
    cases finished

theorem Performs.bind {α β : Type} {m : CallbackM α} {k : α → CallbackM β} (first : Performs publication m ctx notices)
    (second : ∀ value mid, m ctx = .ok value mid → Performs publication (k value) mid notices') :
    Performs publication (m >>= k) ctx (notices ++ notices') := by
  unfold Performs at first second ⊢
  simp only [Bind.bind, EStateM.bind]
  cases ran : m ctx with
  | error message mid =>
    rw [ran] at first
    obtain ⟨told, short, progress⟩ := first
    exact ⟨told, short.trans (List.prefix_append ..), progress⟩
  | ok value mid =>
    rw [ran] at first
    have continued := second value mid ran
    dsimp only at first ⊢
    cases later : k value mid with
    | ok result last =>
      rw [later] at continued
      exact first.trans continued
    | error message last =>
      rw [later] at continued
      obtain ⟨told, short, progress⟩ := continued
      exact ⟨notices ++ told, (List.prefix_append_right_inj notices).mpr short, first.trans progress⟩

/-- Only what has been written and the cache matter. -/
theorem Progress.congr {ctx' after' : Context} (progress : Progress publication ctx after notices)
    (written : ctx'.written = ctx.written) (cache : ctx'.cache = ctx.cache) (written' : after'.written = after.written)
    (cache' : after'.cache = after.cache) : Progress publication ctx' after' notices := by
  obtain ⟨messages, appended, delivers⟩ := progress
  refine ⟨messages, by rw [written', written, appended], ?_⟩
  rwa [cache, cache']

/-- One message: the boundary, the writer, the hand-over. -/
def emit (w : Writer Unit) : CallbackM Unit := do
  outputPluginPrepareWrite
  fill w
  outputPluginWrite

theorem emit_eq (w : Writer Unit) (ctx : Context) :
    emit w ctx = match w [] with
      | .ok ((), out) => .ok () { ctx with preparedWrite := false, out, written := ctx.written ++ [out] }
      | .error message => .error message { ctx with preparedWrite := true, out := [] } := by
  rw [emit, filled_eq]
  cases w [] with
  | error message => rfl
  | ok result => rfl

theorem performs_emit {w : Writer Unit}
    (delivers : ∀ {bytes}, w [] = .ok ((), bytes) → Delivers server publication ctx.cache [bytes] ctx.cache notices) :
    Performs publication (emit w) ctx notices := by
  cases written : w [] with
  | error message =>
    refine Performs.error (by rw [emit_eq, written]) ?_
    exact (Progress.refl ctx).congr rfl rfl rfl rfl
  | ok result =>
    refine Performs.ok (by rw [emit_eq, written]) ?_
    exact ⟨[result.2], rfl, delivers written⟩

end Performing

end PGLogical.Transfer
