/-
**The templates of `proto2obj4pb.py`.**

Structs with `ToProtobuf` and `FromProtobuf`, and functions on the elements of their lists.
-/

import Yarf.Tools.Template

namespace Yarf.Tools.Obj

open Lib

/-! ### The header -/

def hBegin : Text := textLines [
  "",
  "#ifndef $$macro$$",
  "#define $$macro$$",
  "",
  "#include <string>",
  "using std::string;",
  "",
  "#include \"$$file_pre$$.pb.h\"",
  ""]

def hInclude : Text := textLines [
  "",
  "#include \"$$file_pre$$.pb.h\"",
  "#include \"$$file_pre$$_rawdata.h\"",
  ""]

def hNsBegin : Text := textLines [
  "",
  "namespace $$ns$$",
  "\x7b",
  ""]

def hClassBegin : Text := textLines [
  "",
  "struct $$class_name$$ \x7b"]

def hSingleField : Text := textLines [
  "",
  "    // field $$field$$",
  "    $$field_type$$ $$field$$;",
  ""]

def hStringField : Text := textLines [
  "",
  "    // field $$field$$",
  "    static const uint32_t MAX_$$field_upper$$_SIZE = $$max$$;",
  "    char $$field$$[MAX_$$field_upper$$_SIZE + 1];",
  "    uint32_t $$field$$_size;",
  "",
  "    bool set_$$field$$(const char* input) \x7b",
  "        if (nullptr == input ) \x7b return false; \x7d",
  "        uint32_t unreachable_len = MAX_$$field_upper$$_SIZE + 1;",
  "        uint32_t cur_len = strnlen(input, unreachable_len);",
  "        if ( cur_len >= unreachable_len) \x7b return false;\x7d",
  "",
  "        strncpy(this->$$field$$, input, cur_len);",
  "        this->$$field$$_size = cur_len;",
  "        this->$$field$$[cur_len] = '0';",
  "        return true;",
  "    \x7d",
  "    bool set_$$field$$(const char* input, uint32_t len) \x7b",
  "        if (nullptr == input ) \x7b return false; \x7d",
  "        if ( len >=  MAX_$$field_upper$$_SIZE + 1 ) \x7b return false; \x7d",
  "        strncpy(this->$$field$$, input, len);",
  "        this->$$field$$_size = len;",
  "        this->$$field$$[len] = '0';",
  "        return true;",
  "    \x7d",
  ""]

def hVecField : Text := textLines [
  "",
  "    // field $$field$$",
  "    static const uint32_t MAX_$$field_upper$$_SIZE = $$max$$;",
  "    $$field_type$$ $$field$$[MAX_$$field_upper$$_SIZE];",
  "    uint32_t $$field$$_size;",
  "    // field $$field$$ opt func",
  "    bool Add$$field_first_up$$(const $$field_type$$& input);",
  "    $$field_type$$* Add$$field_first_up$$();",
  "    $$field_type$$* Find$$field_first_up$$ByIdx(uint32_t idx);",
  "    bool Del$$field_first_up$$ByIdx(const uint32_t idx);",
  ""]

def hVecFieldMore : Text := textLines [
  "    $$field_type$$* Find$$field_first_up$$ByKey($$field_key_type$$ $$field_key_name$$);",
  "    bool Del$$field_first_up$$ByKey($$field_key_type$$ $$field_key_name$$);",
  ""]

def hClassEnd : Text := textLines [
  "",
  "    // encode & decode",
  "    bool ToProtobuf(",
  "        Proto::$$ns$$::$$class_name$$* target) const;",
  "    bool FromProtobuf(const char* buf, size_t len);",
  "    bool FromProtobuf(const Proto::$$ns$$::$$class_name$$& input);",
  "\x7d;"]

def hEnd : Text := textLines [
  "",
  "",
  "\x7d // namespace $$ns$$",
  "",
  "#endif  // $$macro$$",
  ""]

/-! ### The source -/

def ccBegin : Text := textLines [
  "#include \"$$file_pre$$_rawdata.h\"",
  ""]

def ccEncodeBegin : Text := textLines [
  "",
  "bool $$ns$$::$$class_name$$::ToProtobuf(",
  "    Proto::$$ns$$::$$class_name$$* target) const \x7b",
  "    if (nullptr == target) \x7b",
  "        return false;",
  "    \x7d"]

def ccEncodeSimpleField : Text := textLines [
  "",
  "    target->set_$$field$$(this->$$field$$);",
  ""]

def ccEncodeStructField : Text := textLines [
  "",
  "    if ( !this->$$field$$.ToProtobuf(target->mutable_$$field$$()) ) \x7b",
  "        return false;",
  "    \x7d",
  ""]

def ccEncodeStringField : Text := textLines [
  "",
  "    target->set_$$field$$(this->$$field$$, this->$$field$$_size);",
  ""]

def ccEncodeSimpleVecField : Text := textLines [
  "",
  "    for (uint32_t idx = 0; idx < this->$$field$$_size; ++idx) \x7b",
  "        target->add_$$field$$(this->$$field$$[idx]);",
  "    \x7d",
  ""]

def ccEncodeStructVecField : Text := textLines [
  "",
  "    for (uint32_t idx = 0; idx < this->$$field$$_size; ++idx) \x7b",
  "        auto new_$$field$$ = target->add_$$field$$();",
  "        if (nullptr == new_$$field$$) \x7b",
  "            return false;",
  "        \x7d",
  "        if (!this->$$field$$[idx].ToProtobuf(new_$$field$$)) \x7b",
  "            return false;",
  "        \x7d",
  "    \x7d",
  ""]

def ccEncodeEnd : Text := textLines [
  "   ",
  "    return true;",
  "\x7d",
  ""]

def ccDecodeBegin : Text := textLines [
  "",
  "bool $$ns$$::$$class_name$$::FromProtobuf(const char* buf, size_t len) \x7b",
  "    Proto::$$ns$$::$$class_name$$ input;",
  "    if (!input.ParseFromArray(buf, len))\x7b",
  "        return false;",
  "    \x7d",
  "",
  "    return FromProtobuf(input);",
  "\x7d",
  "",
  "bool $$ns$$::$$class_name$$::FromProtobuf(const Proto::$$ns$$::$$class_name$$& input)",
  "\x7b"]

def ccDecodeStructVecField : Text := textLines [
  "",
  "    auto cur_$$field$$_size = static_cast<uint32_t>(input.$$field$$_size());",
  "    if ( cur_$$field$$_size  > MAX_$$field_upper$$_SIZE ) \x7b",
  "        return false;",
  "    \x7d",
  "    this->$$field$$_size = cur_$$field$$_size;",
  "    for (uint32_t idx = 0; idx < cur_$$field$$_size; ++idx) \x7b",
  "        if ( !this->$$field$$[idx].FromProtobuf(input.$$field$$(idx)))\x7b",
  "            return false;",
  "        \x7d",
  "    \x7d",
  ""]

def ccDecodeSimpleVecField : Text := textLines [
  "",
  "    auto cur_$$field$$_size = static_cast<uint32_t>(input.$$field$$_size());",
  "    if ( cur_$$field$$_size  > MAX_$$field_upper$$_SIZE ) \x7b",
  "        return false;",
  "    \x7d",
  "    this->$$field$$_size = cur_$$field$$_size;",
  "    for (uint32_t idx = 0; idx < cur_$$field$$_size; ++idx) \x7b",
  "        this->$$field$$[idx] = input.$$field$$(idx);",
  "    \x7d",
  ""]

def ccDecodeSimpleField : Text := textLines [
  "",
  "    this->$$field$$ = input.$$field$$();",
  ""]

def ccDecodeStringField : Text := textLines [
  "",
  "    this->set_$$field$$(input.$$field$$().c_str(), input.$$field$$().size());",
  ""]

def ccDecodeStructField : Text := textLines [
  "",
  "    if ( !this->$$field$$.FromProtobuf( input.$$field$$() ) ) \x7b",
  "        return false;",
  "    \x7d",
  ""]

def codeDecodeEnd : Text := textLines [
  "",
  "    return true;",
  "\x7d",
  ""]

def ccOptFunc : Text := textLines [
  "",
  "$$field_type$$* $$ns$$::$$class_name$$::Add$$field_first_up$$()\x7b",
  "    if ($$field$$_size >= MAX_$$field_upper$$_SIZE) \x7b",
  "        return nullptr;",
  "    \x7d",
  "    $$field$$_size++;",
  "    return &($$field$$[$$field$$_size-1]);",
  "\x7d",
  "",
  "bool $$ns$$::$$class_name$$::Add$$field_first_up$$(const $$field_type$$& input) \x7b",
  "    if ($$field$$_size >= MAX_$$field_upper$$_SIZE) \x7b",
  "        return false;",
  "    \x7d",
  "    $$field$$[$$field$$_size] = input;",
  "    $$field$$_size++;",
  "    return true;",
  "\x7d",
  "",
  "$$field_type$$* $$ns$$::$$class_name$$::Find$$field_first_up$$ByIdx(uint32_t idx) \x7b",
  "    if (idx >= $$field$$_size) \x7b",
  "        return nullptr;",
  "    \x7d",
  "    return &($$field$$[idx]);",
  "\x7d",
  "    ",
  "bool $$ns$$::$$class_name$$::Del$$field_first_up$$ByIdx(const uint32_t idx) \x7b",
  "    if (idx >= $$field$$_size) \x7b",
  "        return false;",
  "    \x7d",
  "    if (idx == $$field$$_size - 1) \x7b",
  "        $$field$$_size--;",
  "        return true;",
  "    \x7d",
  "",
  "    char* dest = reinterpret_cast<char*>(&$$field$$[idx]);",
  "    const char* src = reinterpret_cast<char*>(&$$field$$[idx+1]);",
  "    const char* end = reinterpret_cast<char*>(&$$field$$[$$field$$_size]);",
  "    memcpy(dest, src, end - src);",
  "    $$field$$_size--;",
  "    return true;",
  "\x7d",
  ""]

def ccAdditionalOptFunc : Text := textLines [
  "",
  "$$field_type$$* $$ns$$::$$class_name$$::Find$$field_first_up$$ByKey($$field_key_type$$ $$field_key_name$$) \x7b",
  "    for (uint32_t idx = 0; idx < $$field$$_size; ++idx) \x7b",
  "        if ($$field$$[idx].$$field_key_name$$ == $$field_key_name$$) \x7b",
  "            return &($$field$$[idx]);",
  "        \x7d",
  "    \x7d",
  "    return nullptr;",
  "\x7d",
  "",
  "bool $$ns$$::$$class_name$$::Del$$field_first_up$$ByKey($$field_key_type$$ $$field_key_name$$) \x7b",
  "    for (uint32_t idx = 0; idx < $$field$$_size; ++idx) \x7b",
  "        if ($$field$$[idx].$$field_key_name$$ == $$field_key_name$$) \x7b",
  "            return Del$$field_first_up$$ByIdx(idx);",
  "        \x7d",
  "    \x7d",
  "    return false;",
  "\x7d",
  ""]

/-! ### The pieces -/

/-- The holes of each template, in the order in which `gen_code` replaces them. -/
def script : Script where
  hBegin := ⟨hBegin, ["macro", "file_pre"]⟩
  hInclude := ⟨hInclude, ["file_pre"]⟩
  hNsBegin := ⟨hNsBegin, ["ns"]⟩
  hClassBegin := ⟨hClassBegin, ["class_name"]⟩
  hSingleField := ⟨hSingleField, ["field_type", "field"]⟩
  hStringField := ⟨hStringField, ["field_upper", "field", "max"]⟩
  hVecField := ⟨hVecField, ["field_type", "field", "field_upper", "field_first_up", "max"]⟩
  hVecFieldMore := ⟨hVecFieldMore, ["field_type", "field_first_up", "field_key_type", "field_key_name"]⟩
  hClassEnd := ⟨hClassEnd, ["class_name", "ns"]⟩
  hEnd := ⟨hEnd, ["ns", "macro"]⟩
  ccBegin := ⟨ccBegin, ["file_pre"]⟩
  ccEncodeBegin := ⟨ccEncodeBegin, ["ns", "class_name"]⟩
  ccEncodeSimpleField := ⟨ccEncodeSimpleField, ["field"]⟩
  ccEncodeStructField := ⟨ccEncodeStructField, ["field"]⟩
  ccEncodeStringField := ⟨ccEncodeStringField, ["field"]⟩
  ccEncodeSimpleVecField := ⟨ccEncodeSimpleVecField, ["field"]⟩
  ccEncodeStructVecField := ⟨ccEncodeStructVecField, ["field"]⟩
  ccEncodeEnd := ⟨ccEncodeEnd, []⟩
  ccDecodeBegin := ⟨ccDecodeBegin, ["ns", "class_name"]⟩
  ccDecodeSimpleField := ⟨ccDecodeSimpleField, ["field"]⟩
  ccDecodeStructField := ⟨ccDecodeStructField, ["field"]⟩
  ccDecodeStringField := ⟨ccDecodeStringField, ["field"]⟩
  ccDecodeSimpleVecField := ⟨ccDecodeSimpleVecField, ["field", "field_upper"]⟩
  ccDecodeStructVecField := ⟨ccDecodeStructVecField, ["field", "field_upper"]⟩
  codeDecodeEnd := ⟨codeDecodeEnd, []⟩
  ccOptFunc := ⟨ccOptFunc, ["field_type", "field", "ns", "class_name", "field_first_up", "field_upper"]⟩
  ccAdditionalOptFunc := ⟨ccAdditionalOptFunc, ["field_type", "field", "ns", "class_name", "field_first_up",
    "field_upper", "field_key_type", "field_key_name"]⟩
  keyed := true

theorem sound : script.Sound where
  hBegin := .ofLines (by repeat' constructor) (by repeat' constructor) rfl (by decide +kernel)
  hInclude := .ofLines (by repeat' constructor) (by repeat' constructor) rfl (by decide +kernel)
  hNsBegin := .ofLines (by repeat' constructor) (by repeat' constructor) rfl (by decide +kernel)
  hClassBegin := .ofLines (by repeat' constructor) (by repeat' constructor) rfl (by decide +kernel)
  hSingleField := .ofLines (by repeat' constructor) (by repeat' constructor) rfl (by decide +kernel)
  hStringField := .ofLines (by repeat' constructor) (by repeat' constructor) rfl (by decide +kernel)
  hVecField := .ofLines (by repeat' constructor) (by repeat' constructor) rfl (by decide +kernel)
  hVecFieldMore := .ofLines (by repeat' constructor) (by repeat' constructor) rfl (by decide +kernel)
  hClassEnd := .ofLines (by repeat' constructor) (by repeat' constructor) rfl (by decide +kernel)
  hEnd := .ofLines (by repeat' constructor) (by repeat' constructor) rfl (by decide +kernel)
  ccBegin := .ofLines (by repeat' constructor) (by repeat' constructor) rfl (by decide +kernel)
  ccEncodeBegin := .ofLines (by repeat' constructor) (by repeat' constructor) rfl (by decide +kernel)
  ccEncodeSimpleField := .ofLines (by repeat' constructor) (by repeat' constructor) rfl (by decide +kernel)
  ccEncodeStructField := .ofLines (by repeat' constructor) (by repeat' constructor) rfl (by decide +kernel)
  ccEncodeStringField := .ofLines (by repeat' constructor) (by repeat' constructor) rfl (by decide +kernel)
  ccEncodeSimpleVecField := .ofLines (by repeat' constructor) (by repeat' constructor) rfl (by decide +kernel)
  ccEncodeStructVecField := .ofLines (by repeat' constructor) (by repeat' constructor) rfl (by decide +kernel)
  ccEncodeEnd := .ofLines (by repeat' constructor) (by repeat' constructor) rfl (by decide +kernel)
  ccDecodeBegin := .ofLines (by repeat' constructor) (by repeat' constructor) rfl (by decide +kernel)
  ccDecodeSimpleField := .ofLines (by repeat' constructor) (by repeat' constructor) rfl (by decide +kernel)
  ccDecodeStructField := .ofLines (by repeat' constructor) (by repeat' constructor) rfl (by decide +kernel)
  ccDecodeStringField := .ofLines (by repeat' constructor) (by repeat' constructor) rfl (by decide +kernel)
  ccDecodeSimpleVecField := .ofLines (by repeat' constructor) (by repeat' constructor) rfl (by decide +kernel)
  ccDecodeStructVecField := .ofLines (by repeat' constructor) (by repeat' constructor) rfl (by decide +kernel)
  codeDecodeEnd := .ofLines (by repeat' constructor) (by repeat' constructor) rfl (by decide +kernel)
  ccOptFunc := .ofLines (by repeat' constructor) (by repeat' constructor) rfl (by decide +kernel)
  ccAdditionalOptFunc := .ofLines (by repeat' constructor) (by repeat' constructor) rfl (by decide +kernel)

end Yarf.Tools.Obj
