/-!
# FNV-1a

A short hash of a row of 64-bit words, for tables in memory.
-/

namespace ModuleLinker.Digest

/-- The hash of no words. -/
def fnvBasis : UInt64 := 14695981039346656037

/-- The hash of a row of words, given the hash of what stands in front of them: each word is mixed
in by an exclusive or and a multiplication. -/
def fnv1a (words : List UInt64) (hash : UInt64 := fnvBasis) : UInt64 :=
  words.foldl (fun hash word ↦ (hash ^^^ word) * 1099511628211) hash

end ModuleLinker.Digest
