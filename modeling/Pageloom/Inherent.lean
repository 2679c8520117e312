import Pageloom.Value

/-!
# Names that every module has

A module of authored code has some names before its author writes any. Most of
them are callables that give no node, so a build that is asked for one fails, and
how it fails depends on what the callable takes and gives.

## Main definitions

* `Pageloom.Inherent` -- what a callable that every module has takes and gives
* `Pageloom.Inherent.ofName?` -- the callable with a name
-/

namespace Pageloom

/-- What a callable that every module has takes and gives. -/
structure Inherent where
  parameters : List String := []
  gives : Except Fault Value

namespace Inherent

/-- A callable that compares, and knows nothing to compare with. -/
def comparison : Inherent := ⟨["value"], .ok (.foreign "NotImplementedType")⟩

/-- The callables by name. -/
def all : Entries Inherent :=
  [("__class__", ⟨["name", "doc"], .ok (.foreign "module")⟩),
    ("__delattr__", ⟨["name"], .error .unsupported⟩),
    ("__dir__", ⟨[], .ok (.list [])⟩),
    ("__eq__", comparison),
    ("__format__", ⟨["format_spec"], .error .wrongKind⟩),
    ("__ge__", comparison),
    ("__getattribute__", ⟨["name"], .error .unsupported⟩),
    ("__getstate__", ⟨[], .ok (.table [])⟩),
    ("__gt__", comparison),
    ("__hash__", ⟨[], .ok (.int 0)⟩),
    ("__init__", ⟨[], .error .wrongKind⟩),
    ("__init_subclass__", ⟨[], .ok .none⟩),
    ("__le__", comparison),
    ("__lt__", comparison),
    ("__ne__", comparison),
    ("__new__", ⟨[], .error .wrongKind⟩),
    ("__reduce__", ⟨[], .error .wrongKind⟩),
    ("__reduce_ex__", ⟨["protocol"], .error .wrongKind⟩),
    ("__repr__", ⟨[], .ok (.text "")⟩),
    ("__setattr__", ⟨["name", "value"], .ok .none⟩),
    ("__sizeof__", ⟨[], .ok (.int 0)⟩),
    ("__str__", ⟨[], .ok (.text "")⟩),
    ("__subclasshook__", ⟨[], .ok (.foreign "NotImplementedType")⟩)]

/-- The callable with a name. -/
def ofName? (name : String) : Option Inherent := all.get? name

end Inherent

end Pageloom
