import Neuralbase.Library.PrefixCode
import Neuralbase.Storage.Database

namespace Neuralbase

open Neuralbase.Library
open Neuralbase.Consensus (Bytes)
open Neuralbase.Storage (ColumnFamily)

/-! Table schemas, the in-memory catalog and its durable form (`catalog.rs`,
`rocksdb_catalog.rs`). -/

structure ColumnDef where
  name : String
  dataType : String
deriving DecidableEq

structure TableSchema where
  name : String
  columns : List ColumnDef
deriving DecidableEq

/-- `str::to_lowercase`, and `serde_json` on a schema. -/
structure SchemaCodec where
  lowercase : String → String
  toVec : TableSchema → Option Bytes
  fromSlice : Bytes → Option TableSchema
  fromSlice_toVec : ∀ schema bytes, toVec schema = some bytes → fromSlice bytes = some schema

def plainSchemas : SchemaCodec where
  lowercase := String.toLower
  toVec schema := some (code.encode schema)
  fromSlice bytes := (code.decode bytes).map Prod.fst
  fromSlice_toVec := by
    rintro schema bytes ⟨⟩
    rw [code.decode_encode_nil]
    rfl
where
  code : PrefixCode TableSchema :=
    (PrefixCode.text.pair (PrefixCode.text.pair PrefixCode.text).list).via
      (fun schema => (schema.name, schema.columns.map fun column => (column.name, column.dataType)))
      (fun fields => { name := fields.1, columns := fields.2.map fun column => ⟨column.1, column.2⟩ })
      fun schema => by simp [Function.comp_def]

def asciiSchemas : SchemaCodec :=
  { plainSchemas with lowercase := fun name => String.ofList (name.toList.map Char.toLower) }

abbrev InMemoryCatalog := String → Option TableSchema

namespace InMemoryCatalog

variable (codec : SchemaCodec)

def getTable (catalog : InMemoryCatalog) (tableName : String) : Option TableSchema :=
  catalog (codec.lowercase tableName)

def createTable (catalog : InMemoryCatalog) (schema : TableSchema) : InMemoryCatalog :=
  Function.update catalog (codec.lowercase schema.name) (some schema)

def dropTable (catalog : InMemoryCatalog) (name : String) : InMemoryCatalog :=
  Function.update catalog (codec.lowercase name) none

/-- The catalog that holds exactly these schemas; the last one of a name stays. -/
def replaceAll (schemas : List TableSchema) : InMemoryCatalog :=
  schemas.foldl (·.createTable codec ·) fun _ => none

end InMemoryCatalog

def tableOf (name : String) (columns : List (String × String)) : TableSchema :=
  { name, columns := columns.map fun column => ⟨column.1, column.2⟩ }

def catalogKey (codec : SchemaCodec) (name : String) : Bytes := utf8 (codec.lowercase name)

def indexSentinelPrefix : Bytes := utf8 "__idx:"

def isSchemaKey (key : Bytes) : Bool :=
  (fromUtf8 key).isSome && !indexSentinelPrefix.isPrefixOf key

/-- The durable schemas in key order.  Corrupt bytes of one fail the whole load. -/
def loadAll (codec : SchemaCodec) (family : ColumnFamily) : Option (List TableSchema) :=
  (family.entries.filter fun entry => isSchemaKey entry.1).mapM fun entry => codec.fromSlice entry.2

end Neuralbase
