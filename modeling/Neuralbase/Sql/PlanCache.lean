import Neuralbase.Library.Machine
import Neuralbase.Sql.Binder

namespace Neuralbase.Sql

open Neuralbase.Library

/-! The plan cache that all sessions of a server share (`server_parts/prelude.rs`), and the
way of a statement through it (`process_query_inner`). -/

structure PlanCache (Plan : Type) where
  entries : List (String × Plan)
  order : List String
  maxSize : Nat
  hits : Nat
  misses : Nat

namespace PlanCache

variable {Plan : Type}

def new (maxSize : Nat) : PlanCache Plan :=
  { entries := [], order := [], maxSize, hits := 0, misses := 0 }

def get (cache : PlanCache Plan) (sql : String) : Option Plan × PlanCache Plan :=
  match cache.entries.lookup sql with
  | some plan =>
    (some plan, { cache with hits := cache.hits + 1, order := sql :: cache.order.filter (· ≠ sql) })
  | none => (none, { cache with misses := cache.misses + 1 })

def evict (cache : PlanCache Plan) : PlanCache Plan :=
  if cache.maxSize ≤ cache.entries.length then
    match cache.order.getLast? with
    | some lru =>
      { cache with
        order := cache.order.dropLast
        entries := cache.entries.filter fun entry => entry.1 ≠ lru }
    | none => cache
  else cache

def insert (cache : PlanCache Plan) (sql : String) (plan : Plan) : PlanCache Plan :=
  if (cache.entries.lookup sql).isSome then cache
  else { cache.evict with order := sql :: cache.evict.order, entries := (sql, plan) :: cache.evict.entries }

def invalidateAll (cache : PlanCache Plan) : PlanCache Plan := { cache with entries := [], order := [] }

variable {cache : PlanCache Plan} {sql : String} {plan : Plan} {entry : String × Plan}

theorem get_entries : (cache.get sql).2.entries = cache.entries := by
  unfold get
  split <;> rfl

theorem mem_of_get (hit : (cache.get sql).1 = some plan) : (sql, plan) ∈ cache.entries := by
  unfold get at hit
  split at hit
  case h_1 found =>
      cases hit
      obtain ⟨before, after, split, -⟩ := List.lookup_eq_some_iff.mp found
      rw [split]
      exact List.mem_append_right _ List.mem_cons_self
  case h_2 => cases hit

theorem mem_of_evict (inside : entry ∈ cache.evict.entries) : entry ∈ cache.entries := by
  unfold evict at inside
  split at inside
  · split at inside
    · exact List.mem_of_mem_filter inside
    · exact inside
  · exact inside

theorem mem_of_insert (inside : entry ∈ (cache.insert sql plan).entries) :
    entry = (sql, plan) ∨ entry ∈ cache.entries := by
  unfold insert at inside
  split at inside
  · exact .inr inside
  · exact (List.mem_cons.mp inside).imp_right mem_of_evict

end PlanCache

/-- The `White_Space` characters. -/
def isWhiteSpace (c : Char) : Bool :=
  (0x09 ≤ c.toNat && c.toNat ≤ 0x0d) || (0x2000 ≤ c.toNat && c.toNat ≤ 0x200a) ||
    [0x20, 0x85, 0xa0, 0x1680, 0x2028, 0x2029, 0x202f, 0x205f, 0x3000].contains c.toNat

def normalizeSql (codec : SchemaCodec) (sql : String) : String :=
  codec.lowercase (String.ofList
    ([' '].intercalate ((sql.toList.splitOnP isWhiteSpace).filter (· ≠ []))))

/-- A cached plan, with the statement that it was bound for.  No step looks at the statement. -/
structure CachedPlan where
  plan : BoundPlan
  source : NbStatement
deriving DecidableEq

inductive Phase where
  | idle
  | parsed (sql : String) (statement : NbStatement)
  | missed (sql : String) (statement : NbStatement)
  | bound (sql : String) (statement : NbStatement) (plan : BoundPlan)
  | planned (sql : String) (statement : NbStatement) (plan : BoundPlan)
deriving DecidableEq

def Phase.held : Phase → Option NbStatement
  | .bound _ statement _ | .planned _ statement _ => some statement
  | _ => none

structure Execution where
  sql : String
  plan : BoundPlan
  catalog : InMemoryCatalog

/-- What changes the catalog: the two statements, or a snapshot in place of log entries. -/
inductive CatalogEffect where
  | createTable (schema : TableSchema)
  | dropTable (table : String)
  | replaceAll (schemas : List TableSchema)

def CatalogEffect.on (codec : SchemaCodec) (catalog : InMemoryCatalog) : CatalogEffect → InMemoryCatalog
  | .createTable schema => catalog.createTable codec schema
  | .dropTable table => catalog.dropTable codec table
  | .replaceAll schemas => .replaceAll codec schemas

def BoundPlan.effect : BoundPlan → Option CatalogEffect
  | .createTable plan => some (.createTable plan.toTableSchema)
  | .dropTable name => some (.dropTable name)
  | _ => none

def BoundPlan.isCached : BoundPlan → Bool
  | .selectConstI64 _ | .selectFromTable .. | .selectQuery _ | .explain .. => true
  | _ => false

structure QueryServer where
  replicated : Bool
  catalog : InMemoryCatalog
  cache : PlanCache CachedPlan
  sessions : List Phase
  executed : List Execution

def QueryServer.start (replicated : Bool) (catalog : InMemoryCatalog) (maxSize count : Nat) : QueryServer :=
  { replicated, catalog, cache := .new maxSize, sessions := List.replicate count .idle, executed := [] }

inductive QueryEvent where
  | submit (session : Nat) (sql : String)
  /-- The statement ends with an error, or the connection closes. -/
  | abandon (session : Nat)
  | lookup (session : Nat)
  | bind (session : Nat)
  | store (session : Nat)
  | execute (session : Nat)
  /-- The state machine applies an entry of the log. -/
  | applied (effect : CatalogEffect)

namespace QueryServer

variable (codec : SchemaCodec) (text : SqlText) (parse : String → Option NbStatement)

def enter (server : QueryServer) (session : Nat) (phase : Phase) : QueryServer :=
  { server with sessions := server.sessions.set session phase }

def storePlan (server : QueryServer) (sql : String) (statement : NbStatement) (plan : BoundPlan) : QueryServer :=
  { server with
    cache :=
      if plan.isCached then server.cache.insert (normalizeSql codec sql) { plan, source := statement }
      else server.cache.invalidateAll }

def localEffect (server : QueryServer) (plan : BoundPlan) : Option CatalogEffect :=
  if server.replicated then none else plan.effect

def execute (server : QueryServer) (sql : String) (plan : BoundPlan) : QueryServer :=
  { server with
    executed := { sql, plan, catalog := server.catalog } :: server.executed
    catalog := ((server.localEffect plan).map (·.on codec server.catalog)).getD server.catalog }

def exec (server : QueryServer) : QueryEvent → Option QueryServer
  | .submit session sql =>
    match server.sessions[session]?, parse sql with
    | some .idle, some statement => some (server.enter session (.parsed sql statement))
    | _, _ => none
  | .abandon session => some (server.enter session .idle)
  | .lookup session =>
    match server.sessions[session]? with
    | some (.parsed sql statement) =>
      let (found, cache) := server.cache.get (normalizeSql codec sql)
      some ({ server with cache }.enter session
        (found.elim (.missed sql statement) fun cached => .planned sql statement cached.plan))
    | _ => none
  | .bind session =>
    match server.sessions[session]? with
    | some (.missed sql statement) =>
      match bindNbStatement codec text server.catalog statement with
      | .ok plan => some (server.enter session (.bound sql statement plan))
      | .error _ => some (server.enter session .idle)
    | _ => none
  | .store session =>
    match server.sessions[session]? with
    | some (.bound sql statement plan) =>
      some ((server.storePlan codec sql statement plan).enter session (.planned sql statement plan))
    | _ => none
  | .execute session =>
    match server.sessions[session]? with
    | some (.planned sql _ plan) => some ((server.enter session .idle).execute codec sql plan)
    | _ => none
  | .applied effect =>
    if server.replicated then some { server with catalog := effect.on codec server.catalog } else none

def Alike (first second : NbStatement) : Prop :=
  ∀ catalog, bindNbStatement codec text catalog first = bindNbStatement codec text catalog second

theorem Alike.of_eq {codec : SchemaCodec} {text : SqlText} {first second : NbStatement}
    (same : first = second) : Alike codec text first second :=
  fun catalog => congrArg (bindNbStatement codec text catalog) same

/-- The statements whose plans are in the cache or in the hands of a session. -/
def live (server : QueryServer) : List NbStatement :=
  server.cache.entries.map (fun entry => entry.2.source) ++ server.sessions.filterMap Phase.held

def Unaffected (server : QueryServer) (effect : CatalogEffect) : Prop :=
  ∀ statement ∈ server.live, bindNbStatement codec text (effect.on codec server.catalog) statement =
    bindNbStatement codec text server.catalog statement

instance (server : QueryServer) (effect : CatalogEffect) : Decidable (server.Unaffected codec text effect) :=
  inferInstanceAs (Decidable (∀ _ ∈ _, _))

/-- A hit is on the plan of a statement `alike`, and the catalog changes only when no live
plan depends on the change. -/
def Settled (alike : NbStatement → NbStatement → Prop) (server : QueryServer) : QueryEvent → Prop
  | .lookup session =>
    match server.sessions[session]? with
    | some (.parsed sql statement) =>
      ∀ cached ∈ (server.cache.get (normalizeSql codec sql)).1, alike cached.source statement
    | _ => True
  | .execute session =>
    match server.sessions[session]? with
    | some (.planned _ _ plan) =>
      ∀ effect ∈ server.localEffect plan, (server.enter session .idle).Unaffected codec text effect
    | _ => True
  | .applied effect => server.Unaffected codec text effect
  | _ => True

end QueryServer

section Coherence

variable (codec : SchemaCodec) (text : SqlText) (parse : String → Option NbStatement)

/-- The executed plan is what the binder makes of exactly this text against the catalog of
that moment. -/
def Execution.Answers (execution : Execution) : Prop :=
  (parse execution.sql).map (bindNbStatement codec text execution.catalog) = some (.ok execution.plan)

instance (execution : Execution) : Decidable (execution.Answers codec text parse) :=
  inferInstanceAs (Decidable (_ = _))

def Phase.Coherent (catalog : InMemoryCatalog) : Phase → Prop
  | .idle => True
  | .parsed sql statement | .missed sql statement => parse sql = some statement
  | .bound sql statement plan | .planned sql statement plan =>
    parse sql = some statement ∧ bindNbStatement codec text catalog statement = .ok plan

structure QueryServer.Coherent (server : QueryServer) : Prop where
  cached : ∀ entry ∈ server.cache.entries,
    bindNbStatement codec text server.catalog entry.2.source = .ok entry.2.plan
  phases : ∀ phase ∈ server.sessions, phase.Coherent codec text parse server.catalog
  answers : ∀ execution ∈ server.executed, execution.Answers codec text parse

namespace QueryServer

variable {codec : SchemaCodec} {text : SqlText} {parse : String → Option NbStatement}
  {server next : QueryServer} {session : Nat} {phase : Phase}

theorem start_coherent {replicated : Bool} {catalog : InMemoryCatalog} {maxSize count : Nat} :
    (start replicated catalog maxSize count).Coherent codec text parse where
  cached _ inside := by cases inside
  phases phase inside := by
    rw [List.eq_of_mem_replicate inside]
    trivial
  answers _ inside := by cases inside

theorem Coherent.phase_of (coherent : server.Coherent codec text parse)
    (here : server.sessions[session]? = some phase) : phase.Coherent codec text parse server.catalog :=
  coherent.phases phase (List.mem_of_getElem? here)

theorem Coherent.enter (coherent : server.Coherent codec text parse)
    (sound : phase.Coherent codec text parse server.catalog) : (server.enter session phase).Coherent codec text parse :=
  { coherent with
    phases := fun other inside => by
      rcases List.mem_or_eq_of_mem_set inside with inside | rfl
      · exact coherent.phases other inside
      · exact sound }

theorem Coherent.recount (coherent : server.Coherent codec text parse) {cache : PlanCache CachedPlan}
    (same : cache.entries = server.cache.entries) : { server with cache }.Coherent codec text parse :=
  { coherent with cached := fun entry inside => coherent.cached entry (same ▸ inside) }

theorem Coherent.storePlan (coherent : server.Coherent codec text parse) {sql : String}
    {statement : NbStatement} {plan : BoundPlan}
    (current : bindNbStatement codec text server.catalog statement = .ok plan) :
    (server.storePlan codec sql statement plan).Coherent codec text parse := by
  refine { coherent with cached := fun entry inside => ?_ }
  simp only [QueryServer.storePlan] at inside
  split at inside
  · rcases PlanCache.mem_of_insert inside with rfl | inside
    · exact current
    · exact coherent.cached entry inside
  · cases inside

theorem Coherent.change (coherent : server.Coherent codec text parse) {effect : CatalogEffect}
    (unaffected : server.Unaffected codec text effect) :
    { server with catalog := effect.on codec server.catalog }.Coherent codec text parse where
  cached entry inside := by
    refine (unaffected _ (List.mem_append_left _ ?_)).trans (coherent.cached entry inside)
    exact List.mem_map_of_mem inside
  phases phase inside := by
    have held : ∀ statement, phase.held = some statement →
        bindNbStatement codec text (effect.on codec server.catalog) statement =
          bindNbStatement codec text server.catalog statement := fun statement holds =>
      unaffected _ (List.mem_append_right _ (List.mem_filterMap.mpr ⟨phase, inside, holds⟩))
    have sound := coherent.phases phase inside
    cases phase with
    | idle => trivial
    | parsed sql statement | missed sql statement => exact sound
    | bound sql statement plan | planned sql statement plan =>
      exact ⟨sound.1, (held statement rfl).trans sound.2⟩
  answers := coherent.answers

theorem Coherent.execute (coherent : server.Coherent codec text parse) {sql : String} {plan : BoundPlan}
    (answers : Execution.Answers codec text parse { sql, plan, catalog := server.catalog })
    (settled : ∀ effect ∈ server.localEffect plan, server.Unaffected codec text effect) :
    (server.execute codec sql plan).Coherent codec text parse := by
  have recorded : { server with
      executed := { sql, plan, catalog := server.catalog } :: server.executed }.Coherent codec text parse :=
    { coherent with
      answers := fun execution inside => by
        rcases List.mem_cons.mp inside with rfl | inside
        · exact answers
        · exact coherent.answers execution inside }
  unfold QueryServer.execute
  cases changes : server.localEffect plan with
  | none => exact recorded
  | some effect => exact recorded.change (settled effect changes)

theorem Coherent.step (coherent : server.Coherent codec text parse) {event : QueryEvent}
    (settled : server.Settled codec text (Alike codec text) event)
    (stepped : server.exec codec text parse event = some next) : next.Coherent codec text parse := by
  cases event with
  | submit session sql =>
    simp only [exec] at stepped
    split at stepped
    case h_1 statement _ parsed =>
        cases stepped
        exact coherent.enter parsed
    case h_2 => cases stepped
  | abandon session =>
    cases stepped
    exact coherent.enter trivial
  | lookup session =>
    simp only [exec] at stepped
    split at stepped
    case h_1 sql statement here =>
        have parsed : parse sql = some statement := coherent.phase_of here
        simp only [Settled, here] at settled
        cases stepped
        refine (coherent.recount PlanCache.get_entries).enter ?_
        cases found : (server.cache.get (normalizeSql codec sql)).1 with
        | none => exact parsed
        | some cached =>
          have same := settled cached found server.catalog
          exact ⟨parsed, same.symm.trans (coherent.cached _ (PlanCache.mem_of_get found))⟩
    case h_2 => cases stepped
  | bind session =>
    simp only [exec] at stepped
    split at stepped
    case h_1 sql statement here =>
        split at stepped
        case h_1 plan current =>
            cases stepped
            exact coherent.enter ⟨coherent.phase_of here, current⟩
        case h_2 =>
            cases stepped
            exact coherent.enter trivial
    case h_2 => cases stepped
  | store session =>
    simp only [exec] at stepped
    split at stepped
    case h_1 sql statement plan here =>
        have sound := coherent.phase_of here
        cases stepped
        exact (coherent.storePlan sound.2).enter sound
    case h_2 => cases stepped
  | execute session =>
    simp only [exec] at stepped
    split at stepped
    case h_1 sql statement plan here =>
        have sound := coherent.phase_of here
        simp only [Settled, here] at settled
        cases stepped
        have left : (server.enter session .idle).Coherent codec text parse := coherent.enter trivial
        have answers : Execution.Answers codec text parse { sql, plan, catalog := server.catalog } := by
          rw [Execution.Answers, sound.1, Option.map_some, sound.2]
        exact left.execute answers settled
    case h_2 => cases stepped
  | applied effect =>
    simp only [exec] at stepped
    split at stepped
    · cases stepped
      exact coherent.change settled
    · cases stepped

/-- Every executed plan is the binding of its own text against the catalog of that moment,
for any parser, any number of sessions and any interleaving. -/
theorem executed_plans_current {replicated : Bool} {catalog : InMemoryCatalog} {maxSize count : Nat}
    {events : List QueryEvent} {final : QueryServer}
    (ran : runs (exec codec text parse) (start replicated catalog maxSize count) events = some final)
    (settled : Throughout (exec codec text parse) (Settled codec text (Alike codec text))
      (start replicated catalog maxSize count) events) :
    ∀ execution ∈ final.executed, execution.Answers codec text parse :=
  (keeps (Coherent codec text parse) ran settled start_coherent fun _ _ _ coherent allowed stepped =>
    coherent.step allowed stepped).answers

theorem Settled.mono {alike weaker : NbStatement → NbStatement → Prop} {event : QueryEvent}
    (implies : ∀ first second, alike first second → weaker first second)
    (settled : server.Settled codec text alike event) : server.Settled codec text weaker event := by
  cases event with
  | lookup session =>
    simp only [Settled] at settled ⊢
    split at settled
    · exact fun cached found => implies _ _ (settled cached found)
    · trivial
  | submit | abandon | bind | store | execute | applied => exact settled

end QueryServer

section Runs

open QueryServer

def selectOf (display : String) (projection : List SelectItem) (source : List TableWithJoins) : NbStatement :=
  .sql (.query
    { ctes := [], orderBy := [], limit := none, offset := none, display
      body := .select
        { distinct := false, projection, source, selection := none, groupBy := [], having := none
          namedWindow := [] } })

def selectText (literal : String) : NbStatement :=
  selectOf ("SELECT '" ++ literal ++ "'") [.unnamedExpr (.value (.singleQuotedString literal))] []

def selectT : NbStatement := selectOf "SELECT * FROM t" [.wildcard] [{ relation := .table "t", joins := [] }]

def dropT : NbStatement := .sql (.drop true ["t"])

def parseTexts (sql : String) : Option NbStatement :=
  [("SELECT 'A'", selectText "A"), ("select  'A'", selectText "A"), ("SELECT 'a'", selectText "a"),
    ("SELECT * FROM t", selectT), ("DROP TABLE t", dropT)].lookup sql

def oneTable (replicated : Bool) : QueryServer :=
  start replicated (.replaceAll asciiSchemas [tableOf "t" [("name", "TEXT")]]) 8 2

def missing (session : Nat) (sql : String) : List QueryEvent :=
  [.submit session sql, .lookup session, .bind session, .store session, .execute session]

def hitting (session : Nat) (sql : String) : List QueryEvent :=
  [.submit session sql, .lookup session, .execute session]

def sharing : List QueryEvent :=
  missing 0 "SELECT 'A'" ++ hitting 1 "select  'A'" ++ missing 0 "SELECT * FROM t" ++
    hitting 1 "SELECT * FROM t" ++ missing 0 "DROP TABLE t" ++ missing 1 "SELECT 'A'"

instance (server : QueryServer) (event : QueryEvent) :
    Decidable (server.Settled asciiSchemas plainText Eq event) :=
  match event with
  | .lookup session =>
    match here : server.sessions[session]? with
    | some (.parsed sql statement) =>
      decidable_of_iff (∀ cached ∈ (server.cache.get (normalizeSql asciiSchemas sql)).1,
        cached.source = statement) (by simp only [Settled, here])
    | some .idle | some (.missed ..) | some (.bound ..) | some (.planned ..) | none =>
      .isTrue (by simp only [Settled, here])
  | .execute session =>
    match here : server.sessions[session]? with
    | some (.planned _ _ plan) =>
      decidable_of_iff (∀ effect ∈ server.localEffect plan,
        (server.enter session .idle).Unaffected asciiSchemas plainText effect) (by simp only [Settled, here])
    | some .idle | some (.missed ..) | some (.bound ..) | some (.parsed ..) | none =>
      .isTrue (by simp only [Settled, here])
  | .applied effect => inferInstanceAs (Decidable (server.Unaffected asciiSchemas plainText effect))
  | .submit .. | .abandon _ | .bind _ | .store _ => .isTrue trivial

/-- The plan of `SELECT * FROM t` is in the cache when the DROP TABLE of `t` is stored. -/
theorem executed_plans_current_sharing :
    ∃ final, runs (exec asciiSchemas plainText parseTexts) (oneTable false) sharing = some final ∧
      final.executed.length = 6 ∧ final.cache.hits = 2 ∧
      ∀ execution ∈ final.executed, execution.Answers asciiSchemas plainText parseTexts := by
  have strict : Throughout (exec asciiSchemas plainText parseTexts) (Settled asciiSchemas plainText Eq)
      (oneTable false) sharing := by decide +kernel
  have seen : ((runs (exec asciiSchemas plainText parseTexts) (oneTable false) sharing).map fun final =>
      (final.executed.length, final.cache.hits)) = some (6, 2) := by decide +kernel
  obtain ⟨final, ran, counts⟩ := Option.map_eq_some_iff.mp seen
  refine ⟨final, ran, congrArg Prod.fst counts, congrArg Prod.snd counts, executed_plans_current ran ?_⟩
  exact strict.mono fun server event => Settled.mono fun _ _ => Alike.of_eq

def executesStale (server : QueryServer) (events : List QueryEvent) : Prop :=
  ∃ final, runs (exec asciiSchemas plainText parseTexts) server events = some final ∧
    ∃ execution ∈ final.executed, ¬ execution.Answers asciiSchemas plainText parseTexts

instance (server : QueryServer) (events : List QueryEvent) : Decidable (executesStale server events) :=
  decidable_of_iff (∃ final ∈ runs (exec asciiSchemas plainText parseTexts) server events,
    ∃ execution ∈ final.executed, ¬ execution.Answers asciiSchemas plainText parseTexts) Iff.rfl

/-- The key folds the letters of literals, and a DROP TABLE that is applied from the log leaves
the plans of its table in the cache. -/
theorem stale_plans_executed : executesStale (oneTable false) (missing 0 "SELECT 'A'" ++ hitting 1 "SELECT 'a'") ∧
      executesStale (oneTable true)
        (missing 0 "SELECT * FROM t" ++ .applied (.dropTable "t") :: hitting 1 "SELECT * FROM t") := by
  constructor <;> decide +kernel

end Runs

end Coherence

end Neuralbase.Sql
