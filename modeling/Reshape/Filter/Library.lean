import Reshape.Filter.Convert
import Reshape.Filter.Sort
import Reshape.Filter.Source

/-!
The filters that every mapping has unless it replaces them.
-/

namespace Reshape.Filter

def library : List Filter :=
  [ ⟨"identity", .none, identity, .value⟩,
    ⟨"flatten", .between 0 1, flatten, .value⟩,
    ⟨"unique", .none, unique, .value⟩,
    ⟨"sum", .none, sum, .value⟩,
    ⟨"child", .between 0 1, child, .value⟩,
    ⟨"nth", .between 0 1, child, .value⟩,
    ⟨"compact", .none, compact, .value⟩,
    ⟨"concat", .between 0 1, concat, .value⟩,
    ⟨"join", .between 0 1, join, .value⟩,
    ⟨"reverse", .none, reverse, .value⟩,
    ⟨"slice", .between 0 2, slice, .value⟩,
    ⟨"length", .none, length, .value⟩,
    ⟨"find", .exactly 1, find, .value⟩,
    ⟨"findWhere", .exactly 1, filter, .value⟩,
    ⟨"map", .exactly 1, map, .value⟩,
    ⟨"filter", .exactly 1, filter, .value⟩,
    ⟨"reduce", .between 1 2, reduce, .value⟩,
    ⟨"sort", .between 0 1, sort, .value⟩,
    ⟨"toStr", .none, toStr, .value⟩,
    ⟨"toInt", .between 0 1, toInt, .value⟩,
    ⟨"toFloat", .none, toFloat, .value⟩,
    ⟨"toBool", .none, toBool, .value⟩,
    ⟨"toArray", .none, toArray, .value⟩,
    ⟨"toObject", .none, toObject, .value⟩,
    ⟨"stringify", .none, stringify, .value⟩,
    ⟨"get", .between 1 2, get, .path⟩,
    ⟨"set", .between 0 1, set, .value⟩,
    ⟨"put", .exactly 2, put, .path⟩,
    ⟨"has", .exactly 1, has, .path⟩ ]

end Reshape.Filter
