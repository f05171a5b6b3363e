import ServerAsync.JsonUtil

/-!
# `models.hpp`

The responses of the API, as JSON values. The keys of their objects are fixed and
distinct, and every field is under one of them, so a response can be told from what is
printed of it.
-/

namespace ServerAsync

open Misc.Json

structure Error where
  field : Text
  errorCode : Text
  message : Text
  deriving DecidableEq, Repr

structure ResponseData where
  taskId : Text
  deriving DecidableEq, Repr

structure ApiResponse where
  status : Text
  message : Text
  beginAt : Text
  endAt : Text
  deriving DecidableEq, Repr

structure ApiResponseSuccess extends ApiResponse where
  data : ResponseData
  deriving DecidableEq, Repr

structure ApiResponseError extends ApiResponse where
  errors : List Error
  deriving DecidableEq, Repr

/-- The constructor. -/
def ApiResponseSuccess.new (message beginAt endAt : Text) (responseData : ResponseData) :
    ApiResponseSuccess :=
  ⟨⟨"success".toList, message, beginAt, endAt⟩, responseData⟩

/-- The constructor. -/
def ApiResponseError.new (message beginAt endAt : Text) (errorList : List Error) :
    ApiResponseError :=
  ⟨⟨"error".toList, message, beginAt, endAt⟩, errorList⟩

variable (ν : Type*)

/-! ## `tag_invoke(value_from_tag, ..)` -/

def Error.toJson (e : Error) : JsonValue ν :=
  ⟨.object [("field".toList, .string e.field), ("error_code".toList, .string e.errorCode),
    ("message".toList, .string e.message)], rfl⟩

def ResponseData.toJson (d : ResponseData) : JsonValue ν :=
  ⟨.object [("task_id".toList, .string d.taskId)], rfl⟩

def ApiResponseSuccess.toJson (res : ApiResponseSuccess) : JsonValue ν :=
  ⟨.object [("status".toList, .string res.status), ("message".toList, .string res.message),
    ("begin_at".toList, .string res.beginAt), ("end_at".toList, .string res.endAt),
    ("data".toList, (res.data.toJson ν).1)], rfl⟩

theorem elementsDistinct_errors (errors : List Error) :
    elementsDistinct (errors.map fun e => (e.toJson ν).1) = true := by
  induction errors with
  | nil => rfl
  | cons e errors ih =>
    rw [List.map_cons, elementsDistinct, (e.toJson ν).2, ih]
    rfl

def ApiResponseError.toJson (res : ApiResponseError) : JsonValue ν :=
  ⟨.object [("status".toList, .string res.status), ("message".toList, .string res.message),
    ("begin_at".toList, .string res.beginAt), ("end_at".toList, .string res.endAt),
    ("errors".toList, .array (res.errors.map fun e => (e.toJson ν).1))], by
    have herrors := elementsDistinct_errors ν res.errors
    change (elementsDistinct _ && true) = true
    rw [herrors]
    rfl⟩

/-! ## Printing -/

theorem Error.toJson_injective : Function.Injective (Error.toJson ν) := by
  rintro ⟨field, errorCode, message⟩ ⟨field', errorCode', message'⟩ h
  simpa [Error.toJson] using h

theorem ApiResponseSuccess.toJson_injective :
    Function.Injective (ApiResponseSuccess.toJson ν) := by
  rintro ⟨⟨status, message, beginAt, endAt⟩, ⟨taskId⟩⟩
    ⟨⟨status', message', beginAt', endAt'⟩, ⟨taskId'⟩⟩ h
  simpa [ApiResponseSuccess.toJson, ResponseData.toJson, and_assoc] using h

theorem ApiResponseError.toJson_injective : Function.Injective (ApiResponseError.toJson ν) := by
  rintro ⟨⟨status, message, beginAt, endAt⟩, errors⟩
    ⟨⟨status', message', beginAt', endAt'⟩, errors'⟩ h
  have herrors : Function.Injective fun e : Error => (e.toJson ν).1 :=
    Subtype.val_injective.comp (Error.toJson_injective ν)
  simpa [ApiResponseError.toJson, herrors.list_map.eq_iff, and_assoc] using h

variable {ν}

/-- Responses that are printed alike are equal. -/
theorem ApiResponseSuccess.printed_injective (lib : JsonLib ν) :
    Function.Injective fun res : ApiResponseSuccess =>
      prettyPrint lib.tokens (res.toJson ν).1 none :=
  (prettyPrint_injective lib).comp (ApiResponseSuccess.toJson_injective ν)

theorem ApiResponseError.printed_injective (lib : JsonLib ν) :
    Function.Injective fun res : ApiResponseError =>
      prettyPrint lib.tokens (res.toJson ν).1 none :=
  (prettyPrint_injective lib).comp (ApiResponseError.toJson_injective ν)

end ServerAsync
