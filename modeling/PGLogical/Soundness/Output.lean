import PGLogical.Model.Output
import PGLogical.Soundness.Wire

/-! # Row messages and the metadata sent before them

A row message carries values only, so the client needs the column names of an earlier RELATION
message of the same session, and they have to be the columns of the row. The cache keeps that up as
long as a session starts without entries of an earlier one, a change of a described relation's
columns invalidates this relation by name, and no row of it is decoded before the next COMMIT has
pruned the entry. `Traced` records which relations wait for that COMMIT.
-/

namespace PGLogical.Output

open Machine Native

/-! ## What a session tells its client -/

/-- The column list of a RELATION message for the relation. -/
def Message.describes (relid : Oid) : Message → Option (List NameData)
  | .relation rel attList =>
      if rel.relid = relid then some ((rel.desc.sentAttributes attList).map FormPgAttribute.attname) else none
  | _ => none

/-- The columns `pglogical_write_tuple` uses for a tuple. -/
def tupleColumns {rel : Relation} (attList : Option Bitmapset) (tuple : HeapTuple rel.desc) :
    Oid × List NameData :=
  (rel.relid, (tuple.sentColumns attList).map fun column => column.1.attname)

/-- The relation and the columns of every tuple in a row message. -/
def Message.tuples : Message → List (Oid × List NameData)
  | .insert _ newtuple attList => [tupleColumns attList newtuple]
  | .update _ oldtuple newtuple attList => (oldtuple.toList ++ [newtuple]).map (tupleColumns attList)
  | .delete _ oldtuple attList => [tupleColumns attList oldtuple]
  | _ => []

/-- The column list of the latest RELATION message for the relation. -/
def latestColumns (sent : List Message) (relid : Oid) : Option (List NameData) :=
  sent.reverse.findSome? (Message.describes relid)

/-- Every tuple is described by what was sent before it. -/
def Decodable (out : List Message) : Prop :=
  ∀ before message after, out = before ++ message :: after →
    ∀ tuple ∈ message.tuples, latestColumns before tuple.1 = some tuple.2

/-- What every session sent so far, the current one last. -/
def State.outputs (s : State) : List (List Message) := s.ended ++ (s.session.map Session.out).toList

theorem latestColumns_append (sent : List Message) (message : Message) (relid : Oid) :
    latestColumns (sent ++ [message]) relid = (message.describes relid).or (latestColumns sent relid) := by
  rw [latestColumns, List.reverse_append, List.reverse_singleton, List.singleton_append, List.findSome?_cons]
  cases message.describes relid <;> rfl

theorem Decodable.nil : Decodable [] := by
  intro before message after split
  cases before <;> cases split

theorem Decodable.append {out : List Message} (decodable : Decodable out) {message : Message}
    (described : ∀ tuple ∈ message.tuples, latestColumns out tuple.1 = some tuple.2) :
    Decodable (out ++ [message]) := by
  intro before last after split
  rcases List.eq_nil_or_concat after with rfl | ⟨front, final, rfl⟩
  · obtain ⟨rfl, same⟩ := List.append_inj' split rfl
    cases same
    exact described
  · rw [List.concat_eq_append, ← List.cons_append, ← List.append_assoc] at split
    obtain ⟨rfl, -⟩ := List.append_inj' split rfl
    exact decodable before last front rfl

/-- Both loops of the tuple writer use the columns of the RELATION message. -/
theorem tupleColumns_eq {rel : Relation} (attList : Option Bitmapset) (tuple : HeapTuple rel.desc) :
    tupleColumns attList tuple = (rel.relid, (rel.desc.sentAttributes attList).map FormPgAttribute.attname) := by
  rw [tupleColumns, ← tuple.map_sentColumns attList, List.map_map]
  rfl

/-- A row message describes nothing, and all its tuples have the columns of the relation. -/
theorem rowMessage_columns {rel : Relation} {change : ReorderBufferChange (HeapTuple rel.desc)}
    {attList : Option Bitmapset} {row : Message} (sends : rowMessage? rel change attList = some row) :
    (∀ relid, row.describes relid = none) ∧ ∀ tuple ∈ row.tuples,
      tuple = (rel.relid, (rel.desc.sentAttributes attList).map FormPgAttribute.attname) := by
  cases action : change.action with
  | insert =>
    simp only [rowMessage?, action, Option.map_eq_some_iff] at sends
    obtain ⟨newtuple, -, rfl⟩ := sends
    refine ⟨fun relid => rfl, fun tuple written => ?_⟩
    rw [List.mem_singleton.mp written, tupleColumns_eq]
  | update =>
    simp only [rowMessage?, action, Option.map_eq_some_iff] at sends
    obtain ⟨newtuple, -, rfl⟩ := sends
    refine ⟨fun relid => rfl, fun tuple written => ?_⟩
    obtain ⟨source, -, rfl⟩ := List.mem_map.mp written
    exact tupleColumns_eq attList source
  | delete =>
    simp only [rowMessage?, action, Option.map_eq_some_iff] at sends
    obtain ⟨oldtuple, -, rfl⟩ := sends
    refine ⟨fun relid => rfl, fun tuple written => ?_⟩
    rw [List.mem_singleton.mp written, tupleColumns_eq]
  | other code =>
    simp only [rowMessage?, action] at sends
    cases sends

/-! ## Which relations wait for a COMMIT -/

/-- The entry says that the client has the relation. -/
def State.cached (s : State) (relid : Oid) : Bool := (s.cache relid).any (·.isCached)

/-- The columns of the relation that the session would send now. -/
def State.columns (s : State) (relid : Oid) : Option (List NameData) :=
  s.session.bind fun session => (s.tables relid).map fun rel =>
    (rel.desc.sentAttributes (session.attLists relid)).map FormPgAttribute.attname

theorem columns_congr {s next : State} (relid : Oid) (tables : s.tables = next.tables)
    (attLists : s.session.map Session.attLists = next.session.map Session.attLists) :
    s.columns relid = next.columns relid := by
  have columns (state : State) : state.columns relid =
      (state.session.map Session.attLists).bind fun attLists => (state.tables relid).map fun rel =>
        (rel.desc.sentAttributes (attLists relid)).map FormPgAttribute.attname := by
    rw [Option.bind_map]
    rfl
  rw [columns, columns, tables, attLists]

/-- The relation whose columns an event may change, and the invalidations executed with it. -/
def Event.alters : Event → Option (Oid × List Oid)
  | .alterTable rel invalidated => some (rel.relid, invalidated)
  | .alterAttList relid _ invalidated => some (relid, invalidated)
  | _ => none

/-- A backend together with the relations whose columns changed, after the client had been told of
them, since the last COMMIT. -/
structure Traced where
  state : State
  redefined : Oid → Bool

def Traced.init (tables : Oid → Option Relation) : Traced := ⟨Output.init tables, fun _ => false⟩

def Traced.mark (s : Traced) (next : State) (relid : Oid) : Oid → Bool :=
  if s.state.cached relid = true ∧ next.columns relid ≠ s.state.columns relid then
    Function.update s.redefined relid true
  else s.redefined

def Traced.step (catalog : Catalog) (s : Traced) (event : Event) : Option Traced :=
  (Output.step catalog s.state event).map fun next =>
    ⟨next, match event with
      | .startup .. => fun _ => false
      | .commit .. => fun _ => false
      | .alterTable rel _ => s.mark next rel.relid
      | .alterAttList relid _ _ => s.mark next relid
      | _ => s.redefined⟩

/-- The steps after which the cache can still be trusted. -/
structure Announced (catalog : Catalog) (s : Traced) (event : Event) : Prop where
  /-- A native session starts without entries for relations that an earlier client was told of. -/
  fresh : ∀ data attLists, event = .startup .native data attLists → ∀ relid, s.state.cached relid = false
  /-- A change of the columns of a described relation invalidates this relation by name, unless that
  has already happened. -/
  invalidates : ∀ relid invalidated next hentry, event.alters = some (relid, invalidated) →
    Output.step catalog s.state event = some next → next.columns relid ≠ s.state.columns relid →
    s.state.cache relid = some hentry → hentry.isCached = true → hentry.isValid = true → relid ∈ invalidated
  /-- No row of a relation is decoded between such a change and the next COMMIT. -/
  settled : ∀ rel change session, event = .change rel change true → s.state.session = some session →
    session.proto = .native → s.state.cached rel.relid = true → s.redefined rel.relid = false

/-- Every entry that suppresses a RELATION message either stands for one with the columns of now, or
waits for the COMMIT that prunes it. -/
structure Known (s : Traced) : Prop where
  decodable : ∀ out ∈ s.state.outputs, Decodable out
  described : ∀ session, s.state.session = some session → session.proto = .native →
    ∀ relid hentry, s.state.cache relid = some hentry → hentry.isCached = true →
      s.redefined relid = true ∧ hentry.isValid = false ∨
        latestColumns session.out relid = s.state.columns relid

/-! ## One step -/

theorem callback_entry {cache : RelMetaCache} {named relid : Oid} {hentry : PGLRelMetaCacheEntry}
    (found : relmetaCacheCallback cache named relid = some hentry) :
    ∃ before, cache relid = some before ∧ hentry.isCached = before.isCached ∧
      (hentry.isValid = true → before.isValid = true ∧ relid ≠ named) := by
  unfold relmetaCacheCallback at found
  cases present : cache named with
  | none =>
    rw [present] at found
    dsimp only at found
    refine ⟨hentry, found, rfl, fun valid => ⟨valid, ?_⟩⟩
    rintro rfl
    rw [present] at found
    cases found
  | some old =>
    rw [present] at found
    dsimp only at found
    by_cases same : relid = named
    · subst same
      rw [Function.update_self] at found
      cases found
      refine ⟨old, present, rfl, fun valid => ?_⟩
      cases valid
    · rw [Function.update_of_ne same] at found
      exact ⟨hentry, found, rfl, fun valid => ⟨valid, same⟩⟩

/-- Invalidations only mark entries, and mark those that they name. -/
theorem callbacks_entry {cache : RelMetaCache} {invalidated : List Oid} {relid : Oid}
    {hentry : PGLRelMetaCacheEntry}
    (found : invalidated.foldl relmetaCacheCallback cache relid = some hentry) :
    ∃ before, cache relid = some before ∧ hentry.isCached = before.isCached ∧
      (hentry.isValid = true → before.isValid = true ∧ relid ∉ invalidated) := by
  induction invalidated generalizing cache with
  | nil => exact ⟨hentry, found, rfl, fun valid => ⟨valid, List.not_mem_nil⟩⟩
  | cons named rest ih =>
    obtain ⟨middle, present, cachedMiddle, validMiddle⟩ := ih found
    obtain ⟨before, stored, cachedBefore, validBefore⟩ := callback_entry present
    refine ⟨before, stored, cachedMiddle.trans cachedBefore, fun valid => ?_⟩
    obtain ⟨valid, others⟩ := validMiddle valid
    obtain ⟨valid, other⟩ := validBefore valid
    exact ⟨valid, List.not_mem_cons_of_ne_of_not_mem other others⟩

/-- A row goes out where its relation is described, and changes no description. -/
theorem sendRow_spec (catalog : Catalog) {session : Session} {rel : Relation}
    (change : ReorderBufferChange (HeapTuple rel.desc)) (cache : RelMetaCache) (out sent : List Message)
    (decodable : Decodable (out ++ sent))
    (described : session.proto = .native → latestColumns (out ++ sent) rel.relid =
      some ((rel.desc.sentAttributes (session.attLists rel.relid)).map FormPgAttribute.attname)) :
    let result := sendRow catalog session rel change cache sent
    result.cache = cache ∧ Decodable (out ++ result.sent) ∧
      ∀ relid, latestColumns (out ++ result.sent) relid = latestColumns (out ++ sent) relid := by
  intro result
  have unsent : result.cache = cache → result.sent = sent → result.cache = cache ∧
      Decodable (out ++ result.sent) ∧
      ∀ relid, latestColumns (out ++ result.sent) relid = latestColumns (out ++ sent) relid := by
    intro kept same
    rw [same]
    exact ⟨kept, decodable, fun relid => rfl⟩
  have sentRow : ∀ row, result.cache = cache → result.sent = sent ++ [row] →
      (∀ relid, row.describes relid = none) →
      (∀ tuple ∈ row.tuples, latestColumns (out ++ sent) tuple.1 = some tuple.2) → result.cache = cache ∧
      Decodable (out ++ result.sent) ∧
      ∀ relid, latestColumns (out ++ result.sent) relid = latestColumns (out ++ sent) relid := by
    intro row kept last silent fits
    rw [last, ← List.append_assoc]
    refine ⟨kept, decodable.append fits, fun relid => ?_⟩
    rw [latestColumns_append, silent, Option.none_or]
  cases sends : rowMessage? rel change (session.attLists rel.relid) with
  | none => apply unsent <;> simp only [result, sendRow, sends]
  | some row =>
    cases proto : session.proto with
    | json =>
      apply sentRow (.json rel change (session.attLists rel.relid))
      · simp only [result, sendRow, sends, proto]
      · simp only [result, sendRow, sends, proto]
      · intro relid
        rfl
      · intro tuple written
        cases written
    | native =>
      obtain ⟨silent, columns⟩ := rowMessage_columns sends
      by_cases written : row.writes catalog session.data = true
      · apply sentRow row
        · simp only [result, sendRow, sends, proto, Decoded.send, if_pos written]
        · simp only [result, sendRow, sends, proto, Decoded.send, if_pos written]
        · exact silent
        · intro tuple inside
          rw [columns tuple inside]
          exact described proto
      · apply unsent
        · simp only [result, sendRow, sends, proto, Decoded.send, if_neg written]
        · simp only [result, sendRow, sends, proto, Decoded.send, if_neg written]

theorem cacheRelmeta_spec (cache : RelMetaCache) (rel : Relation) :
    (pglogicalCacheRelmeta cache rel).1 = (cache rel.relid).any (·.isCached) ∧
      ∀ relid hentry, (pglogicalCacheRelmeta cache rel).2 relid = some hentry → hentry.isCached = true →
        cache relid = some hentry := by
  unfold pglogicalCacheRelmeta
  cases present : cache rel.relid with
  | none =>
    refine ⟨rfl, fun relid hentry found cached => ?_⟩
    dsimp only at found
    by_cases here : relid = rel.relid
    · rw [here, Function.update_self] at found
      cases found
      cases cached
    · rwa [Function.update_of_ne here] at found
  | some entry => exact ⟨rfl, fun relid hentry found _ => found⟩

/-- What a change leaves of the cache is described by what the session has sent. -/
theorem pgDecodeChange_spec (catalog : Catalog) {session : Session} {cache : RelMetaCache} {rel : Relation}
    (change : ReorderBufferChange (HeapTuple rel.desc)) (decodable : Decodable session.out)
    (described : session.proto = .native → (cache rel.relid).any (·.isCached) = true →
      latestColumns session.out rel.relid =
        some ((rel.desc.sentAttributes (session.attLists rel.relid)).map FormPgAttribute.attname)) :
    let result := pgDecodeChange catalog session cache rel change
    Decodable (session.out ++ result.sent) ∧
      (session.proto = .native → ∀ relid hentry, result.cache relid = some hentry → hentry.isCached = true →
        relid = rel.relid ∧ latestColumns (session.out ++ result.sent) relid =
          some ((rel.desc.sentAttributes (session.attLists rel.relid)).map FormPgAttribute.attname) ∨
        relid ≠ rel.relid ∧ cache relid = some hentry ∧
          latestColumns (session.out ++ result.sent) relid = latestColumns session.out relid) := by
  intro result
  cases proto : session.proto with
  | json =>
    have same : result = sendRow catalog session rel change cache [] := by
      simp only [result, pgDecodeChange, proto]
    obtain ⟨-, sent, -⟩ := sendRow_spec catalog change cache session.out []
      (by rwa [List.append_nil]) (by rw [proto]; intro native; cases native)
    rw [same]
    exact ⟨sent, fun native => by cases native⟩
  | native =>
    obtain ⟨hit, entries⟩ := cacheRelmeta_spec cache rel
    have stored : ∀ relid hentry, (pglogicalCacheRelmeta cache rel).2 relid = some hentry →
        hentry.isCached = true → relid = rel.relid → (pglogicalCacheRelmeta cache rel).1 = true := by
      rintro relid hentry found known rfl
      rw [hit, entries _ _ found known]
      exact known
    by_cases known : (pglogicalCacheRelmeta cache rel).1 = true
    · -- the client is taken to know the relation: only the row goes out
      have same : result = sendRow catalog session rel change (pglogicalCacheRelmeta cache rel).2 [] := by
        simp only [result, pgDecodeChange, proto, if_pos known]
      have before := described proto (hit ▸ known)
      obtain ⟨kept, sent, latest⟩ := sendRow_spec catalog change (pglogicalCacheRelmeta cache rel).2
        session.out [] (by rwa [List.append_nil]) (by rw [List.append_nil]; exact fun _ => before)
      rw [← same, List.append_nil] at latest
      rw [← same] at kept sent
      refine ⟨sent, fun _ relid hentry found cached => ?_⟩
      rw [kept] at found
      rw [latest]
      by_cases here : relid = rel.relid
      · rw [here]
        exact .inl ⟨rfl, before⟩
      · exact .inr ⟨here, entries _ _ found cached, rfl⟩
    have elsewhere : ∀ relid hentry, (pglogicalCacheRelmeta cache rel).2 relid = some hentry →
        hentry.isCached = true → relid ≠ rel.relid :=
      fun relid hentry found cached here => known (stored relid hentry found cached here)
    by_cases written : (Message.relation rel (session.attLists rel.relid)).writes catalog session.data = true
    · have same : result = sendRow catalog session rel change
          (setCached (pglogicalCacheRelmeta cache rel).2 rel.relid)
          [.relation rel (session.attLists rel.relid)] := by
        simp only [result, pgDecodeChange, proto, if_neg known, Decoded.send, if_pos written, if_true,
          List.nil_append]
      have described := latestColumns_append session.out (.relation rel (session.attLists rel.relid))
      have here : latestColumns (session.out ++ [.relation rel (session.attLists rel.relid)]) rel.relid =
          some ((rel.desc.sentAttributes (session.attLists rel.relid)).map FormPgAttribute.attname) := by
        rw [described, Message.describes, if_pos rfl, Option.some_or]
      obtain ⟨kept, sent, latest⟩ := sendRow_spec catalog change
        (setCached (pglogicalCacheRelmeta cache rel).2 rel.relid) session.out
        [.relation rel (session.attLists rel.relid)]
        (decodable.append fun tuple absent => by cases absent) (fun _ => here)
      rw [← same] at kept sent latest
      refine ⟨sent, fun _ relid hentry found cached => ?_⟩
      rw [latest]
      by_cases other : relid = rel.relid
      · rw [other]
        exact .inl ⟨rfl, here⟩
      · rw [kept, setCached, Function.update_of_ne other] at found
        refine .inr ⟨other, entries _ _ found cached, ?_⟩
        rw [described, Message.describes, if_neg (Ne.symm other), Option.none_or]
    · have same : result = ⟨(pglogicalCacheRelmeta cache rel).2, [], false⟩ := by
        simp [result, pgDecodeChange, proto, if_neg known, Decoded.send, if_neg written]
      rw [same]
      dsimp only
      rw [List.append_nil]
      exact ⟨decodable, fun _ relid hentry found cached =>
        .inr ⟨elsewhere _ _ found cached, entries _ _ found cached, rfl⟩⟩

section Step

variable {catalog : Catalog} {s : Traced}

theorem Known.current (known : Known s) {session : Session} (here : s.state.session = some session) :
    Decodable session.out := by
  apply known.decodable
  rw [State.outputs, here]
  exact List.mem_append_right _ (List.mem_singleton.mpr rfl)

/-- A session that ends leaves nothing to describe. -/
theorem Known.finish (known : Known s) {session : Session} {state : State} {redefined : Oid → Bool}
    (here : s.state.session = some session) (ended : state.ended = s.state.ended) :
    Known ⟨state.finish session, redefined⟩ := by
  have outputs : (state.finish session).outputs = s.state.outputs := by
    rw [State.outputs, State.outputs, here, State.finish, ended]
    simp
  refine ⟨?_, fun other active => by cases active⟩
  dsimp only
  rw [outputs]
  exact known.decodable

/-- The outputs after the current session has sent more. -/
theorem Known.outputs_emit (known : Known s) {next : Session} {state : State} (ended : state.ended = s.state.ended)
    (active : state.session = some next) (decodable : Decodable next.out) :
    ∀ out ∈ state.outputs, Decodable out := by
  intro out sent
  rw [State.outputs, active, ended] at sent
  rcases List.mem_append.mp sent with before | now
  · exact known.decodable out (List.mem_append_left _ before)
  · rw [List.mem_singleton.mp now]
    exact decodable

/-- BEGIN and COMMIT describe nothing and carry no tuple. -/
theorem Known.emit (known : Known s) {session : Session} {message : Message} {cache : RelMetaCache}
    {redefined : Oid → Bool} (here : s.state.session = some session)
    (silent : ∀ relid, message.describes relid = none) (empty : message.tuples = [])
    (entries : ∀ relid hentry, cache relid = some hentry → hentry.isCached = true →
      s.state.cache relid = some hentry ∧ (s.redefined relid = true ∧ hentry.isValid = false →
        redefined relid = true)) :
    Known ⟨{ s.state with session := some (session.emit [message]), cache := cache }, redefined⟩ := by
  have decodable : Decodable (session.out ++ [message]) :=
    (known.current here).append fun tuple absent => by rw [empty] at absent; cases absent
  refine ⟨known.outputs_emit rfl rfl decodable, fun next active native relid hentry found cached => ?_⟩
  cases active
  obtain ⟨before, marked⟩ := entries relid hentry found cached
  rcases known.described session here native relid hentry before cached with waits | latest
  · exact .inl ⟨marked waits, waits.2⟩
  · refine .inr (Eq.trans ?_ (latest.trans (columns_congr relid rfl ?_)))
    · rw [Session.emit, latestColumns_append, silent, Option.none_or]
    · rw [here]
      rfl

/-- A change of the columns of one relation, with the invalidations executed for it. -/
theorem Known.alter (known : Known s) {state : State} (relid : Oid) (invalidated : List Oid)
    (outputs : state.outputs = s.state.outputs)
    (sessions : ∀ next, state.session = some next → ∃ session, s.state.session = some session ∧
      session.proto = next.proto ∧ session.out = next.out)
    (cache : state.cache = invalidated.foldl relmetaCacheCallback s.state.cache)
    (others : ∀ other, other ≠ relid → state.columns other = s.state.columns other)
    (invalidates : ∀ hentry, state.columns relid ≠ s.state.columns relid → s.state.cache relid = some hentry →
      hentry.isCached = true → hentry.isValid = true → relid ∈ invalidated) :
    Known ⟨state, s.mark state relid⟩ := by
  refine ⟨by rw [outputs]; exact known.decodable, fun next active native oid hentry found cached => ?_⟩
  obtain ⟨session, here, proto, out⟩ := sessions next active
  dsimp only at found
  rw [cache] at found
  obtain ⟨before, stored, sameCached, valid⟩ := callbacks_entry found
  rw [sameCached] at cached
  have marked : s.redefined oid = true → s.mark state relid oid = true := by
    intro already
    unfold Traced.mark
    split
    · by_cases same : oid = relid
      · rw [same, Function.update_self]
      · rwa [Function.update_of_ne same]
    · exact already
  have invalid : before.isValid = false → hentry.isValid = false := by
    intro already
    by_contra still
    rw [Bool.not_eq_false] at still
    rw [(valid still).1] at already
    cases already
  rcases known.described session here (proto.trans native) oid before stored cached with waits | latest
  · exact .inl ⟨marked waits.1, invalid waits.2⟩
  by_cases unchanged : state.columns oid = s.state.columns oid
  · refine .inr ?_
    rw [← out, unchanged]
    exact latest
  -- the columns of this relation change, so its entry is marked one way or the other
  have same : oid = relid := by
    by_contra other
    exact unchanged (others oid other)
  subst same
  refine .inl ⟨?_, ?_⟩
  · have present : s.state.cached oid = true := by rw [State.cached, stored]; exact cached
    dsimp only
    rw [Traced.mark, if_pos ⟨present, unchanged⟩, Function.update_self]
  · by_contra still
    rw [Bool.not_eq_false] at still
    exact (valid still).2 (invalidates before unchanged stored cached (valid still).1)

theorem Known.change (known : Known s) {session : Session} {rel : Relation}
    (change : ReorderBufferChange (HeapTuple rel.desc)) (here : s.state.session = some session)
    (opened : s.state.tables rel.relid = some rel)
    (settled : session.proto = .native → s.state.cached rel.relid = true → s.redefined rel.relid = false) :
    Known ⟨s.state.decoded session (pgDecodeChange catalog session s.state.cache rel change), s.redefined⟩ := by
  have now : s.state.columns rel.relid =
      some ((rel.desc.sentAttributes (session.attLists rel.relid)).map FormPgAttribute.attname) := by
    rw [State.columns, here, Option.bind_some, opened, Option.map_some]
  have before : session.proto = .native → (s.state.cache rel.relid).any (·.isCached) = true →
      latestColumns session.out rel.relid =
        some ((rel.desc.sentAttributes (session.attLists rel.relid)).map FormPgAttribute.attname) := by
    intro native cached
    obtain ⟨hentry, found, isCached⟩ := (Option.any_eq_true ..).mp cached
    rcases known.described session here native rel.relid hentry found isCached with waits | latest
    · rw [settled native cached] at waits
      cases waits.1
    · rw [latest, now]
  obtain ⟨decodable, described⟩ := pgDecodeChange_spec catalog change (known.current here) before
  unfold State.decoded
  dsimp only
  split
  · refine ⟨known.outputs_emit rfl rfl decodable, fun next active native relid hentry found cached => ?_⟩
    cases active
    rcases described native relid hentry found cached with ⟨rfl, latest⟩ | ⟨-, stored, latest⟩
    · refine .inr ((latest.trans now.symm).trans (columns_congr _ rfl ?_))
      rw [here]
      rfl
    · rcases known.described session here native relid hentry stored cached with waits | earlier
      · exact .inl waits
      · refine .inr ((latest.trans earlier).trans (columns_congr _ rfl ?_))
        rw [here]
        rfl
  · refine ⟨fun out sent => ?_, fun next active => by cases active⟩
    rcases List.mem_append.mp sent with finished | none
    · rcases List.mem_append.mp finished with ended | last
      · exact known.decodable out (List.mem_append_left _ ended)
      · rw [List.mem_singleton.mp last]
        exact decodable
    · cases none

/-- Every announced step keeps the cache in line with what the client was told. -/
theorem known_step {event : Event} {next : Traced} (known : Known s) (announced : Announced catalog s event)
    (taken : Traced.step catalog s event = some next) : Known next := by
  obtain ⟨state, stepped, rfl⟩ := Option.map_eq_some_iff.mp taken
  cases event with
  | startup proto data attLists =>
    cases active : s.state.session with
    | some session =>
      simp only [step, active] at stepped
      cases stepped
    | none =>
      simp only [step, active, Option.some.injEq] at stepped
      subst stepped
      refine ⟨fun out sent => ?_, fun session started native relid hentry found cached => ?_⟩
      · rcases List.mem_append.mp sent with before | now
        · exact known.decodable out (List.mem_append_left _ before)
        · rw [List.mem_singleton.mp now]
          exact Decodable.nil
      · cases started
        cases native
        have absent := announced.fresh data attLists rfl relid
        rw [State.cached] at absent
        rw [pglogicalInitRelmetacache] at found
        rw [found] at absent
        exact absurd cached (Bool.eq_false_iff.mp absent)
  | begin txn =>
    obtain ⟨session, here, rfl⟩ := Option.map_eq_some_iff.mp stepped
    exact known.emit here (fun relid => rfl) rfl fun relid hentry found _ => ⟨found, And.left⟩
  | change rel change forward =>
    simp only [step] at stepped
    cases here : s.state.session with
    | none =>
      rw [here] at stepped
      cases stepped
    | some session =>
      rw [here] at stepped
      obtain ⟨opened, stepped⟩ := Option.ite_none_right_eq_some.mp stepped
      cases forward with
      | false =>
        cases stepped
        exact known
      | true =>
        cases stepped
        exact known.change change here opened (announced.settled rel change session rfl here)
  | commit txn commitLsn =>
    obtain ⟨session, here, rfl⟩ := Option.map_eq_some_iff.mp stepped
    refine known.emit here (fun relid => rfl) rfl fun relid hentry found _ => ?_
    -- an entry that waits is marked, so it does not survive the pruning
    obtain ⟨stored, valid⟩ := Option.filter_eq_some_iff.mp found
    refine ⟨stored, fun waits => ?_⟩
    rw [waits.2] at valid
    cases valid
  | shutdown =>
    obtain ⟨session, here, rfl⟩ := Option.map_eq_some_iff.mp stepped
    exact known.finish here rfl
  | error =>
    obtain ⟨session, here, rfl⟩ := Option.map_eq_some_iff.mp stepped
    exact known.finish here rfl
  | invalidate relid =>
    cases stepped
    refine ⟨known.decodable, fun session active native oid hentry found cached => ?_⟩
    obtain ⟨before, stored, sameCached, valid⟩ := callback_entry found
    rw [sameCached] at cached
    rcases known.described session active native oid before stored cached with waits | latest
    · refine .inl ⟨waits.1, ?_⟩
      by_contra still
      rw [Bool.not_eq_false] at still
      rw [(valid still).1] at waits
      cases waits.2
    · exact .inr latest
  | alterTable rel invalidated =>
    have invalidates := announced.invalidates rel.relid invalidated state
    cases stepped
    refine known.alter rel.relid invalidated rfl (fun next active => ⟨next, active, rfl, rfl⟩) rfl
      (fun other different => ?_) fun hentry => invalidates hentry rfl rfl
    simp only [State.columns, Function.update_of_ne different]
  | alterAttList relid attList invalidated =>
    have invalidates := announced.invalidates relid invalidated state
    obtain ⟨session, here, rfl⟩ := Option.map_eq_some_iff.mp stepped
    refine known.alter relid invalidated ?_ (fun next active => ?_) rfl (fun other different => ?_)
      fun hentry => invalidates hentry rfl stepped
    · rw [State.outputs, State.outputs, here]
      rfl
    · cases active
      exact ⟨session, here, rfl, rfl⟩
    · rw [State.columns, State.columns, here]
      simp only [Option.bind_some, Function.update_of_ne different]

end Step

theorem known_init (tables : Oid → Option Relation) : Known (Traced.init tables) := by
  constructor
  · intro out sent
    cases sent
  · intro session active
    cases active

/-- In every run of announced steps, whatever the sessions, transactions and invalidations, every
tuple of every session was described before it was sent, with exactly its columns. -/
theorem rows_described (catalog : Catalog) (tables : Oid → Option Relation) (events : List Event) (final : Traced)
    (announced : Permitted (Traced.step catalog) (Announced catalog) (Traced.init tables) events)
    (success : run (Traced.step catalog) (Traced.init tables) events = some final) :
    ∀ out ∈ final.state.outputs, Decodable out :=
  (run_invariant known_step (known_init tables) announced success).decodable

/-! ## Sample runs -/

def sampleTables : Oid → Option Relation := fun relid => if relid = 16400 then some sampleRel else none

def sampleInsert : Event := .change sampleRel ⟨.insert, none, some sampleTuple⟩ true

def sampleStartup : Event := .startup .native ⟨true, false⟩ fun _ => none

def sampleCommit : Event := .commit ⟨700, 10, 20, 0⟩ 10

/-- A session that fails leaves its entries to the next one, which sends a row that nothing
describes. -/
theorem row_undescribed_after_error :
    ∃ final, run (step sampleCatalog) (init sampleTables)
        [sampleStartup, .begin ⟨700, 10, 20, 0⟩, sampleInsert, .error,
          sampleStartup, .begin ⟨700, 10, 20, 0⟩, sampleInsert] = some final ∧
      ¬ ∀ out ∈ final.outputs, Decodable out := by
  refine ⟨_, rfl, fun decodable => ?_⟩
  have second := decodable [.begin ⟨700, 10, 20, 0⟩, .insert sampleRel sampleTuple none]
    (List.mem_append_right _ (List.mem_singleton.mpr rfl))
  have described := second [.begin ⟨700, 10, 20, 0⟩] _ [] rfl _ (List.mem_singleton.mpr rfl)
  cases described

/-- Two transactions and a clean shutdown, and the next session of the backend. -/
def sampleSessions : List Event :=
  [sampleStartup, sampleInsert, sampleCommit, sampleInsert, .shutdown, sampleStartup, sampleInsert]

/-- The first session describes the table once, the second describes it again. -/
theorem rows_described_two_sessions :
    ∃ final, run (Traced.step sampleCatalog) (Traced.init sampleTables) sampleSessions = some final ∧
      ∀ out ∈ final.state.outputs, Decodable out := by
  refine ⟨_, rfl, rows_described sampleCatalog sampleTables sampleSessions _ ?_ rfl⟩
  have harmless : ∀ s, Announced sampleCatalog s sampleCommit ∧ Announced sampleCatalog s .shutdown := by
    intro s
    refine ⟨⟨?_, ?_, ?_⟩, ⟨?_, ?_, ?_⟩⟩ <;> intros <;> contradiction
  have starts : ∀ s : Traced, (∀ relid, s.state.cached relid = false) → Announced sampleCatalog s sampleStartup := by
    intro s empty
    refine ⟨fun _ _ _ => empty, ?_, ?_⟩ <;> intros <;> contradiction
  have inserts : ∀ s : Traced, s.redefined 16400 = false → Announced sampleCatalog s sampleInsert := by
    intro s settled
    refine ⟨?_, ?_, ?_⟩
    · intros
      contradiction
    · intros
      contradiction
    · intro rel change session same
      cases same
      exact fun _ _ _ => settled
  refine ⟨starts _ fun relid => rfl, fun started taken => ?_⟩
  cases taken
  refine ⟨inserts _ rfl, fun inserted taken => ?_⟩
  cases taken
  refine ⟨(harmless _).1, fun committed taken => ?_⟩
  cases taken
  refine ⟨inserts _ rfl, fun inserted taken => ?_⟩
  cases taken
  refine ⟨(harmless _).2, fun ended taken => ?_⟩
  cases taken
  refine ⟨starts _ fun relid => rfl, fun started taken => ?_⟩
  cases taken
  exact ⟨inserts _ rfl, fun inserted taken => trivial⟩

end PGLogical.Output
