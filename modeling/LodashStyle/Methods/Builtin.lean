import LodashStyle.Methods.Basic
import LodashStyle.Config.Options

/-! # The methods of releases 3 and 4 -/

namespace LodashStyle

namespace Methods

/-- Names as texts. -/
def named (names : List String) : List Text := names.map Text.ofString

/-- Pairs of names as texts. -/
def paired (pairs : List (String × String)) : List (Text × Text) :=
  pairs.map fun (a, b) => (Text.ofString a, Text.ofString b)

/-- The methods of release 3. -/
def release3 : Methods where
  aliases := paired
    [("all", "every"), ("any", "some"), ("backflow", "flowRight"), ("collect", "map"),
     ("compose", "flowRight"), ("contains", "includes"), ("detect", "find"),
     ("each", "forEach"), ("eachRight", "forEachRight"), ("eq", "isEqual"),
     ("extend", "assign"), ("foldl", "reduce"), ("foldr", "reduceRight"), ("head", "first"),
     ("include", "includes"), ("inject", "reduce"), ("iteratee", "callback"),
     ("methods", "functions"), ("object", "zipObject"), ("run", "value"), ("select", "filter"),
     ("tail", "rest"), ("toJSON", "value"), ("unique", "uniq"), ("valueOf", "value")]
  chainable := named
    ["after", "ary", "assign", "at", "before", "bind", "bindAll", "bindKey", "callback",
     "chain", "chunk", "commit", "compact", "concat", "constant", "countBy", "create", "curry",
     "curryRight", "debounce", "defaults", "defaultsDeep", "defer", "delay", "difference",
     "drop", "dropRight", "dropRightWhile", "dropWhile", "fill", "filter", "flatten",
     "flattenDeep", "flow", "flowRight", "forEach", "forEachRight", "forIn", "forInRight",
     "forOwn", "forOwnRight", "functions", "groupBy", "indexBy", "initial", "intersection",
     "invert", "invoke", "keys", "keysIn", "map", "mapKeys", "mapValues", "matches",
     "matchesProperty", "memoize", "merge", "method", "methodOf", "mixin", "modArgs", "negate",
     "omit", "once", "pairs", "partial", "partialRight", "partition", "pick", "plant", "pluck",
     "property", "propertyOf", "pull", "pullAt", "push", "range", "rearg", "reject", "remove",
     "rest", "restParam", "reverse", "set", "shuffle", "slice", "sort", "sortBy", "sortByAll",
     "sortByOrder", "splice", "spread", "take", "takeRight", "takeRightWhile", "takeWhile",
     "tap", "throttle", "thru", "times", "toArray", "toPlainObject", "transform", "union",
     "uniq", "unshift", "unzip", "unzipWith", "values", "valuesIn", "where", "without", "wrap",
     "xor", "zip", "zipObject", "zipWith"]
  breakers := named ["run", "toJSON", "value", "valueOf"]

/-- The methods of release 4. -/
def release4 : Methods where
  aliases := paired
    [("each", "forEach"), ("eachRight", "forEachRight"), ("entries", "toPairs"),
     ("entriesIn", "toPairsIn"), ("extend", "assignIn"), ("extendWith", "assignInWith"),
     ("first", "head"), ("toJSON", "value"), ("valueOf", "value")]
  chainable := named
    ["after", "ary", "assign", "assignIn", "assignInWith", "assignWith", "at", "before", "bind",
     "bindAll", "bindKey", "castArray", "chain", "chunk", "commit", "compact", "concat",
     "conforms", "constant", "countBy", "create", "curry", "curryRight", "debounce", "defaults",
     "defaultsDeep", "defer", "delay", "difference", "differenceBy", "differenceWith", "drop",
     "dropRight", "dropRightWhile", "dropWhile", "fill", "filter", "flatMap", "flatMapDeep",
     "flatMapDepth", "flatten", "flattenDeep", "flattenDepth", "flip", "flow", "flowRight",
     "fromPairs", "functions", "functionsIn", "groupBy", "initial", "intersection",
     "intersectionBy", "intersectionWith", "invert", "invertBy", "invokeMap", "iteratee",
     "keyBy", "keys", "keysIn", "map", "mapKeys", "mapValues", "matches", "matchesProperty",
     "memoize", "merge", "mergeWith", "method", "methodOf", "mixin", "negate", "nthArg", "omit",
     "omitBy", "once", "orderBy", "over", "overArgs", "overEvery", "overSome", "partial",
     "partialRight", "partition", "pick", "pickBy", "plant", "property", "propertyOf", "pull",
     "pullAll", "pullAllBy", "pullAllWith", "pullAt", "push", "range", "rangeRight", "rearg",
     "reject", "remove", "rest", "reverse", "sampleSize", "set", "setWith", "shuffle", "slice",
     "sort", "sortBy", "splice", "spread", "tail", "take", "takeRight", "takeRightWhile",
     "takeWhile", "tap", "throttle", "thru", "toArray", "toPairs", "toPairsIn", "toPath",
     "toPlainObject", "transform", "unary", "union", "unionBy", "unionWith", "uniq", "uniqBy",
     "uniqWith", "unset", "unshift", "unzip", "unzipWith", "update", "updateWith", "values",
     "valuesIn", "without", "wrap", "xor", "xorBy", "xorWith", "zip", "zipObject",
     "zipObjectDeep", "zipWith"]
  breakers := named ["toJSON", "value", "valueOf"]

end Methods

/-- The methods of a release. -/
def Library.methods : Library → Methods
  | .v3 => Methods.release3
  | .v4 => Methods.release4

/-- The built-in tables. -/
def MethodTables.builtin : MethodTables where
  aliases := [(3, Methods.release3.aliases), (4, Methods.release4.aliases)]
  chainable := [(3, Methods.release3.chainable), (4, Methods.release4.chainable)]
  breakers := [(3, Methods.release3.breakers), (4, Methods.release4.breakers)]

end LodashStyle
