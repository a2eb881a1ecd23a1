import HeapLens.Layout.Registry

/-!
The layouts of a 64-bit little-endian runtime. Every object begins with two header words; the
entry table of a hash is allocated in the same slot, directly behind the hash itself.
-/
namespace HeapLens.Layout

def value : Layout := .integer "VALUE" 8 false
def identifier : Layout := .integer "ID" 8 false
def long : Layout := .integer "long" 8 true
def sizeType : Layout := .integer "size_t" 8 false
def tableIndex : Layout := .integer "st_index_t" 8 false
def unsignedInt : Layout := .integer "unsigned int" 4 false
def unsignedChar : Layout := .integer "unsigned char" 1 false
def char : Layout := .integer "char" 1 true
def bigDigit : Layout := .integer "BDIGIT" 8 false
def double : Layout := .float "double" 8

def header : List (String × UInt64 × Layout) :=
  [("basic.flags", 0, value), ("basic.klass", 8, value)]

def basic : Layout := .record "struct RBasic" 16 header

def string : Layout := .record "struct RString" 40 (header ++
  [("len", 16, long),
   ("as.heap.ptr", 24, char.pointerTo),
   ("as.heap.aux.capa", 32, long),
   ("as.heap.aux.shared", 32, value),
   ("as.embed.ary", 24, char)])

def array : Layout := .record "struct RArray" 40 (header ++
  [("as.heap.len", 16, long),
   ("as.heap.aux.capa", 24, long),
   ("as.heap.aux.shared_root", 24, value),
   ("as.heap.ptr", 32, value.pointerTo),
   ("as.ary", 16, value)])

def hash : Layout := .record "struct RHash" 24 (header ++ [("ifnone", 16, value)])

def tableEntry : Layout := .record "st_table_entry" 24
  [("hash", 0, tableIndex), ("key", 8, value), ("record", 16, value)]

def table : Layout := .record "st_table" 56
  [("entry_power", 0, unsignedChar),
   ("bin_power", 1, unsignedChar),
   ("size_ind", 2, unsignedChar),
   ("rebuilds_num", 4, unsignedInt),
   ("type", 8, value),
   ("num_entries", 16, tableIndex),
   ("bins", 24, tableIndex.pointerTo),
   ("entries_start", 32, tableIndex),
   ("entries_bound", 40, tableIndex),
   ("entries", 48, tableEntry.pointerTo)]

def pair : Layout := .record "ar_table_pair" 16 [("key", 0, value), ("val", 8, value)]

def pairTable : Layout := .record "ar_table" 136 [("ar_hint.word", 0, value), ("pairs", 8, pair)]

def struct : Layout := .record "struct RStruct" 40 (header ++
  [("as.heap.len", 16, long),
   ("as.heap.ptr", 24, value.pointerTo),
   ("as.ary", 16, value)])

def heapFloat : Layout := .record "struct RFloat" 24 (header ++ [("float_value", 16, double)])

def bignum : Layout := .record "struct RBignum" 40 (header ++
  [("as.heap.len", 16, sizeType),
   ("as.heap.digits", 24, bigDigit.pointerTo),
   ("as.ary", 16, bigDigit)])

def symbol : Layout := .record "struct RSymbol" 40 (header ++
  [("hashval", 16, tableIndex), ("fstr", 24, value), ("id", 32, identifier)])

end HeapLens.Layout

namespace HeapLens.Registry

/-- Scalars first, then the records that are made of them. -/
def standard : Registry :=
  [Layout.value, .identifier, .long, .sizeType, .tableIndex, .unsignedInt, .unsignedChar, .char,
   .bigDigit, .double, .basic, .string, .array, .hash, .tableEntry, .table, .pair, .pairTable,
   .struct, .heapFloat, .bignum, .symbol].foldl insert empty

end HeapLens.Registry
