import PackedIndex.Json
import PackedIndex.Reader
/-! # Describing an index

The geometry and attributes of an index file as a JSON document, on demand with all its records. Keys
and values are shown as text.
-/
namespace PackedIndex.Reader

def describeLevel (region : Region) : Json :=
  .fields [("offset", .number region.offset), ("pages", .number region.pages)]

def describeRecord (record : Record) : Json :=
  .fields (("key", .string (Utf8.lossy record.key)) ::
    (record.value?.map fun value => ("value", Json.string (Utf8.lossy value))).toList)

/-- The name of the format, which tells blocks beside their keys from others. -/
def describeFormat (reader : Reader) : String :=
  if reader.layout.inlineBlock then "block (inline)" else reader.header.attributes.format.name

def document (reader : Reader) (records : Option (List Record)) : Json :=
  let layout := reader.layout
  let attributes := reader.header.attributes
  let valueSize :=
    if attributes.format = .block then Json.number attributes.valueSize else .null
  .fields [("pagetree", .fields ([
    ("numlevels", .number layout.numLevels),
    ("pagesize", .number layout.pageSize),
    ("branching_factor", .number layout.branchingFactor),
    ("leaf", .fields [
      ("record_size", .number layout.leafRecordSize),
      ("records_per_page", .number layout.recordsPerLeafPage),
      ("pages", .number layout.leafPages),
      ("offset", .number layout.leafOffset)]),
    ("value_offset", .number layout.valueOffset),
    ("levels", .list (layout.levels.map describeLevel)),
    ("attr", .fields [
      ("records", .number attributes.recordCount),
      ("ksize", .number attributes.keySize),
      ("vsize", valueSize),
      ("format", .string reader.describeFormat)])] ++
    (records.map fun records => ("records", Json.list (records.map describeRecord))).toList))]

/-- The document about a file; damage to any record that is asked for is the answer to all. -/
def describe (reader : Reader) (withRecords : Bool) : Except Damage Json := do
  if withRecords then
    return reader.document (some (← reader.records.mapM id))
  else return reader.document none

end PackedIndex.Reader
