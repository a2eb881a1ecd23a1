/-!
The constants of a runtime build that decide how a word is encoded and how an object is laid out.
Each has the name under which a target defines it and a value for targets that do not.
-/
namespace HeapLens

inductive Constant where
  | falseWord | nilWord | trueWord | undefWord
  | immediateMask | fixnumFlag | flonumMask | flonumFlag | symbolFlag | specialShift
  | typeMask | userShift
  | stringNoEmbed
  | arrayEmbedFlag | arrayEmbedLengthMask | arrayEmbedLengthShift
  | hashTableFlag | hashSizeMask | hashSizeShift | hashBoundMask | hashBoundShift
  | recordEmbedLengthMask | recordEmbedLengthShift
  | bignumSign | bignumEmbedFlag | bignumEmbedLengthMask | bignumEmbedLengthShift
  deriving DecidableEq, Repr

namespace Constant

/-- Every constant, in the order in which they are resolved and listed. -/
def all : List Constant :=
  [.falseWord, .nilWord, .trueWord, .undefWord, .immediateMask, .fixnumFlag, .flonumMask,
   .flonumFlag, .symbolFlag, .specialShift, .typeMask, .userShift, .stringNoEmbed,
   .arrayEmbedFlag, .arrayEmbedLengthMask, .arrayEmbedLengthShift, .hashTableFlag, .hashSizeMask,
   .hashSizeShift, .hashBoundMask, .hashBoundShift, .recordEmbedLengthMask,
   .recordEmbedLengthShift, .bignumSign, .bignumEmbedFlag, .bignumEmbedLengthMask,
   .bignumEmbedLengthShift]

/-- The name under which a target defines the constant. -/
def label : Constant → String
  | .falseWord => "RUBY_Qfalse"
  | .nilWord => "RUBY_Qnil"
  | .trueWord => "RUBY_Qtrue"
  | .undefWord => "RUBY_Qundef"
  | .immediateMask => "RUBY_IMMEDIATE_MASK"
  | .fixnumFlag => "RUBY_FIXNUM_FLAG"
  | .flonumMask => "RUBY_FLONUM_MASK"
  | .flonumFlag => "RUBY_FLONUM_FLAG"
  | .symbolFlag => "RUBY_SYMBOL_FLAG"
  | .specialShift => "RUBY_SPECIAL_SHIFT"
  | .typeMask => "RUBY_T_MASK"
  | .userShift => "RUBY_FL_USHIFT"
  | .stringNoEmbed => "RSTRING_NOEMBED"
  | .arrayEmbedFlag => "RARRAY_EMBED_FLAG"
  | .arrayEmbedLengthMask => "RARRAY_EMBED_LEN_MASK"
  | .arrayEmbedLengthShift => "RARRAY_EMBED_LEN_SHIFT"
  | .hashTableFlag => "RHASH_ST_TABLE_FLAG"
  | .hashSizeMask => "RHASH_AR_TABLE_SIZE_MASK"
  | .hashSizeShift => "RHASH_AR_TABLE_SIZE_SHIFT"
  | .hashBoundMask => "RHASH_AR_TABLE_BOUND_MASK"
  | .hashBoundShift => "RHASH_AR_TABLE_BOUND_SHIFT"
  | .recordEmbedLengthMask => "RSTRUCT_EMBED_LEN_MASK"
  | .recordEmbedLengthShift => "RSTRUCT_EMBED_LEN_SHIFT"
  | .bignumSign => "BIGNUM_SIGN_BIT"
  | .bignumEmbedFlag => "BIGNUM_EMBED_FLAG"
  | .bignumEmbedLengthMask => "BIGNUM_EMBED_LEN_MASK"
  | .bignumEmbedLengthShift => "BIGNUM_EMBED_LEN_SHIFT"

/-- Shifts move a field down to bit zero and have to be below 64. -/
def isShift : Constant → Bool
  | .specialShift | .userShift | .arrayEmbedLengthShift | .hashSizeShift | .hashBoundShift
  | .recordEmbedLengthShift | .bignumEmbedLengthShift => true
  | _ => false

/-- The value in a target that does not say. Bits that belong to one type start at bit 12. -/
def defaultValue : Constant → UInt64
  | .falseWord => 0x00
  | .nilWord => 0x04
  | .trueWord => 0x14
  | .undefWord => 0x24
  | .immediateMask => 0x07
  | .fixnumFlag => 0x01
  | .flonumMask => 0x03
  | .flonumFlag => 0x02
  | .symbolFlag => 0x0c
  | .specialShift => 8
  | .typeMask => 0x1f
  | .userShift => 12
  | .stringNoEmbed => 0x2000
  | .arrayEmbedFlag => 0x2000
  | .arrayEmbedLengthMask => 0x3f8000
  | .arrayEmbedLengthShift => 15
  | .hashTableFlag => 0x8000
  | .hashSizeMask => 0xf0000
  | .hashSizeShift => 16
  | .hashBoundMask => 0xf00000
  | .hashBoundShift => 20
  | .recordEmbedLengthMask => 0xfe000
  | .recordEmbedLengthShift => 13
  | .bignumSign => 0x2000
  | .bignumEmbedFlag => 0x4000
  | .bignumEmbedLengthMask => 0x38000
  | .bignumEmbedLengthShift => 15

theorem mem_all (c : Constant) : c ∈ all := by cases c <;> decide

theorem all_nodup : all.Nodup := by decide

def ofLabel? (name : String) : Option Constant := all.find? fun c => c.label == name

end Constant
end HeapLens
