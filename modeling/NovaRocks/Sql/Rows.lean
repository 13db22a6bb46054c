import NovaRocks.Sql.Plan
import NovaRocks.Sql.ExprEq
import NovaRocks.Relational.Join
import Mathlib.Data.List.Sort

/-!
What a plan returns. An output row keeps its cells, which set operations line
up by position, and the value each reference in scope has on it. References
that no operator below answers fall through to the row of the enclosing query,
which is how a correlated subquery is read.
-/
namespace NovaRocks
open Relational
variable [CaseFolding]

structure Row where
  cells : List Value
  look : QualifiedRef → Value

abbrev Outer := QualifiedRef → Value

/-- The engine's operators and the tables: for each table its records. -/
structure World where
  interp : Interp
  records : String → String → List (String → Value)

def World.ofTables (tables : List (String × List String × List (List Value))) : World where
  interp := intInterp
  records _ table :=
    match tables.find? fun t => t.1 == table with
    | none => []
    | some (_, names, records) => records.map fun record column =>
        (record[names.idxOf column]?).getD .null

def cellRow (s : Scope) (cells : List Value) : Row :=
  ⟨cells, fun r => (s r).elim .null fun slot => cells.getD slot .null⟩

def nullRow (n : Nat) : Row :=
  ⟨List.replicate n .null, fun _ => .null⟩

def mergeLook (left right : Scope) (l r : QualifiedRef → Value) (ref : QualifiedRef) : Value :=
  match ref.1 with
  | none => if left.resolves ref then l ref else r ref
  | some _ => if right.resolves ref then r ref else l ref

def mergeRow (left right : Scope) (l r : Row) : Row :=
  ⟨l.cells ++ r.cells, mergeLook left right l.look r.look⟩

def envOf (s : Scope) (o : Outer) (look : QualifiedRef → Value) : Env :=
  ⟨fun r => if s.resolves r then look r else o r, fun _ => .null⟩

def accepts (i : Interp) (s : Scope) (o : Outer) (e : TypedExpr) (row : Row) : Bool :=
  (truthOf i (envOf s o row.look) e).holds

/-- Top-level conjuncts of a join condition, parentheses opened. -/
def joinConjuncts : TypedExpr → List TypedExpr
  | ⟨.binaryOp l .and r, _, _⟩ => joinConjuncts l ++ joinConjuncts r
  | ⟨.nested e, _, _⟩ => joinConjuncts e
  | e => [e]

/-- One conjunct of a join condition. An equality of two columns becomes a
hash key: each operand is looked up on its own side when that is possible.
Everything else is evaluated on the joined row. -/
def conjunctMatches (i : Interp) (left right : Scope) (o : Outer) (e : TypedExpr)
    (l r : QualifiedRef → Value) : Bool :=
  let joined := (truthOf i (envOf (Scope.merge 0 left right) o (mergeLook left right l r)) e).holds
  match columnEq e with
  | some (a, b) =>
    if left.resolves a && right.resolves b then ((l a).equals (r b)).holds
    else if left.resolves b && right.resolves a then ((r a).equals (l b)).holds
    else joined
  | none => joined

def conditionMatches (i : Interp) (left right : Scope) (o : Outer) (condition : Option TypedExpr)
    (l r : Row) : Bool :=
  match condition with
  | none => true
  | some e => (joinConjuncts e).all fun c => conjunctMatches i left right o c l.look r.look

/-- The nine joins over already computed inputs. -/
def joinRows (kind : JoinKind) (pair : Row → Row → Row) (padLeft padRight : Row)
    (on : Row → Row → Bool) (left right : List Row) : List Row :=
  match kind with
  | .inner | .cross => matched pair on left right
  | .leftOuter =>
    matched pair on left right ++ (lonely on left right).map fun l => pair l padRight
  | .rightOuter =>
    matched pair on left right ++ (lonely (flip on) right left).map (pair padLeft)
  | .fullOuter =>
    matched pair on left right ++ (lonely on left right).map (fun l => pair l padRight) ++
      (lonely (flip on) right left).map (pair padLeft)
  | .leftSemi => paired on left right
  | .leftAnti => lonely on left right
  | .rightSemi => paired (flip on) right left
  | .rightAnti => lonely (flip on) right left

def groupRows {κ : Type} [DecidableEq κ] (key : Row → κ) (rows : List Row) : List (κ × List Row) :=
  (rows.map key).dedup.map fun k => (k, rows.filter fun row => key row = k)

def aggregateCells (i : Interp) (env : Row → Env) (groupBy : List TypedExpr)
    (aggregates : List AggregateCall) (rows : List Row) : List (List Value) :=
  let key := fun row => evalList i (env row) groupBy
  -- without grouping keys there is one group, also over no rows
  let groups := if groupBy.isEmpty then [([], rows)] else groupRows key rows
  groups.map fun (k, members) =>
    k ++ aggregates.map fun call =>
      i.aggregate call.name call.distinct (members.map fun row =>
        (evalList i (env row) call.args, evalList i (env row) (call.orderBy.map SortItem.expr)))

/-- Lexicographic order of sort keys; NULL goes to the end the item names. -/
def keysBefore (i : Interp) : List SortItem → List Value → List Value → Bool
  | item :: items, a :: as, b :: bs =>
    if a = b then keysBefore i items as bs
    else if a = .null then item.nullsFirst
    else if b = .null then !item.nullsFirst
    else if item.asc then i.less a b else i.less b a
  | _, _, _ => true

def sortRows (i : Interp) (env : Row → Env) (items : List SortItem) (rows : List Row) : List Row :=
  let keys := fun row => evalList i (env row) (items.map SortItem.expr)
  rows.insertionSort fun a b => keysBefore i items (keys a) (keys b) = true

def windowCells (i : Interp) (env : Row → Env) (windowExprs : List WindowExpr)
    (rows : List Row) : List (List Value) :=
  rows.zipIdx.map fun (row, n) =>
    row.cells ++ windowExprs.map fun w =>
      i.window w.name w.distinct w.windowFrame (rows.map fun r =>
        (evalList i (env r) w.args, evalList i (env r) w.partitionBy,
          evalList i (env r) (w.orderBy.map SortItem.expr))) n

def seriesValues (node : GenerateSeriesNode) : List Int :=
  let count := if 0 < node.step then (node.stop - node.start) / node.step + 1
    else if node.step < 0 then (node.start - node.stop) / -node.step + 1
    else 0
  (List.range count.toNat).map fun k => node.start + k * node.step

/-- Slot of the first cell of that name, which is the one a repeat blanks. -/
def rollupSlots (names : List String) (columns : List String) : List Nat :=
  columns.filterMap fun c => names.idxOf? (lower c)

def groupingBits (args nonNull : List String) : Nat :=
  args.foldl (fun bits a => 2 * bits + if (nonNull.map lower).contains (lower a) then 0 else 1) 0

def repeatRow (names : List String) (input : Scope) (info : RepeatInfo) (row : Row)
    (level : List String × Nat) : Row :=
  let kept := rollupSlots names level.1
  let blanked := (rollupSlots names info.allRollupColumns).filter fun s => !kept.contains s
  let virtual := if info.groupingFnArgs.isEmpty then []
    else Value.int level.2 :: info.groupingFnArgs.map fun f => .int (groupingBits f.2 level.1)
  let cells := row.cells.mapIdx fun k v => if blanked.contains k then .null else v
  ⟨cells ++ virtual, fun r =>
    match Scope.ofBindings (namedBindings [] info.virtualColumns) r with
    | some k => virtual.getD k .null
    | none =>
      let r := repeatRef info.groupingKeyAliases input r
      match input r with
      | some slot => if blanked.contains slot then .null else row.look r
      | none => .null⟩

def distinctCells (rows : List (List Value)) : List (List Value) :=
  rows.dedup

mutual
def rows (w : World) (ctes : Nat → List Row) (o : Outer) : LogicalPlan → List Row
  | .scan node =>
    let s := scopeOf w.interp (.scan node)
    ((w.records node.database node.table.name).map fun record =>
      cellRow s (node.emitted.map record)).filter fun row =>
        node.predicates.all fun p => accepts w.interp s o p row
  | .filter input predicate =>
    (rows w ctes o input).filter (accepts w.interp (scopeOf w.interp input) o predicate)
  | .project input items =>
    let s := scopeOf w.interp input
    (rows w ctes o input).map fun row =>
      cellRow (scopeOf w.interp (.project input items))
        (items.map fun item => eval w.interp (envOf s o row.look) item.expr)
  | .aggregate input groupBy aggregates columns =>
    let s := scopeOf w.interp input
    (aggregateCells w.interp (fun row => envOf s o row.look) groupBy aggregates
      (rows w ctes o input)).map
        (cellRow (scopeOf w.interp (.aggregate input groupBy aggregates columns)))
  | .join left right kind condition =>
    let ls := scopeOf w.interp left
    let rs := scopeOf w.interp right
    joinRows kind (mergeRow ls rs) (nullRow (width w.interp left)) (nullRow (width w.interp right))
      (conditionMatches w.interp ls rs o condition) (rows w ctes o left) (rows w ctes o right)
  | .sort input items =>
    let s := scopeOf w.interp input
    sortRows w.interp (fun row => envOf s o row.look) items (rows w ctes o input)
  | .limit input count offset =>
    let rest := (rows w ctes o input).drop (offset.getD 0)
    match count with
    | none => rest
    | some n => rest.take n
  | .union inputs all =>
    let cells := (rowsOfInputs w ctes o inputs).flatten
    (if all then cells else distinctCells cells).map
      (cellRow (scopeOf w.interp (.union inputs all)))
  | .intersect inputs =>
    match rowsOfInputs w ctes o inputs with
    | [] => []
    | first :: others =>
      ((distinctCells first).filter fun c => others.all fun other => other.contains c).map
        (cellRow (scopeOf w.interp (.intersect inputs)))
  | .except inputs =>
    match rowsOfInputs w ctes o inputs with
    | [] => []
    | first :: others =>
      ((distinctCells first).filter fun c => !others.any fun other => other.contains c).map
        (cellRow (scopeOf w.interp (.except inputs)))
  | .values exprRows columns =>
    exprRows.map fun exprs =>
      cellRow (scopeOf w.interp (.values exprRows columns))
        (evalList w.interp (envOf .empty o fun _ => .null) exprs)
  | .generateSeries node =>
    (seriesValues node).map fun v =>
      cellRow (scopeOf w.interp (.generateSeries node)) [.int v]
  | .window input windowExprs columns =>
    let s := scopeOf w.interp input
    (windowCells w.interp (fun row => envOf s o row.look) windowExprs (rows w ctes o input)).map
      (cellRow (scopeOf w.interp (.window input windowExprs columns)))
  | .subqueryAlias input aliasName columns =>
    let s := scopeOf w.interp input
    (rows w ctes o input).map fun row =>
      ⟨row.cells, fun r => row.look (aliasRef (lower aliasName) (columnNames columns) s r)⟩
  | .repeat input info =>
    (rows w ctes o input).flatMap fun row =>
      (info.repeatColumnRefList.zip info.groupingIds).map
        (repeatRow (orderedNames w.interp input) (scopeOf w.interp input) info row)
  | .cteAnchor cteId produce consumer =>
    let produced := rows w ctes o produce
    rows w (fun id => if id = cteId then produced else ctes id) o consumer
  | .cteProduce _ input _ => rows w ctes o input
  | .cteConsume cteId aliasName columns =>
    (ctes cteId).map fun row =>
      cellRow (scopeOf w.interp (.cteConsume cteId aliasName columns)) row.cells
def rowsOfInputs (w : World) (ctes : Nat → List Row) (o : Outer) : List LogicalPlan → List (List (List Value))
  | [] => []
  | p :: rest => (rows w ctes o p).map Row.cells :: rowsOfInputs w ctes o rest
end

def SameBag (a b : List Row) : Prop :=
  a.Perm b

end NovaRocks
