/-
**The templates of `proto2bin.py`.**

Structs with `Encode` and `Decode`.
-/

import Yarf.Tools.Template

namespace Yarf.Tools.Bin

open Lib

/-! ### The header -/

def hBegin : Text := textLines [
  "",
  "#ifndef $$macro$$",
  "#define $$macro$$",
  "#include \"yarf/net/bin_packer.h\"",
  ""]

def hInclude : Text := textLines [
  "",
  "#include \"$$file_pre$$_binpack.h\"",
  ""]

def hNsBegin : Text := textLines [
  "",
  "namespace $$ns$$",
  "\x7b",
  ""]

def hClassBegin : Text := textLines [
  "",
  "struct $$class_name$$ \x7b"]

def hSingleField : Text := textLines [
  "",
  "  // field $$field$$",
  "  $$field_type$$ $$field$$;",
  ""]

def hStringField : Text := textLines [
  "",
  "  // field $$field$$",
  "  static const uint32_t MAX_$$field_upper$$_SIZE = $$max$$;",
  "  char $$field$$[MAX_$$field_upper$$_SIZE + 1];",
  "  uint32_t $$field$$_size;",
  "  bool set_$$field$$(const char* input) \x7b",
  "    if (nullptr == input ) \x7b return false; \x7d",
  "    uint32_t unreachable_len = MAX_$$field_upper$$_SIZE + 1;",
  "    uint32_t cur_len = strnlen(input, unreachable_len);",
  "    if ( cur_len >= unreachable_len) \x7b return false;\x7d",
  "    strncpy(this->$$field$$, input, cur_len);",
  "    this->$$field$$_size = cur_len;",
  "    this->$$field$$[cur_len] = '0';",
  "    return true;",
  "  \x7d",
  "  bool set_$$field$$(const char* input, uint32_t len) \x7b",
  "    if (nullptr == input ) \x7b return false; \x7d",
  "    if ( len >=  MAX_$$field_upper$$_SIZE + 1 ) \x7b return false; \x7d",
  "    strncpy(this->$$field$$, input, len);",
  "    this->$$field$$_size = len;",
  "    this->$$field$$[len] = '0';",
  "    return true;",
  "  \x7d",
  ""]

def hVecField : Text := textLines [
  "",
  "  // field $$field$$",
  "  static const uint32_t MAX_$$field_upper$$_SIZE = $$max$$;",
  "  $$field_type$$ $$field$$[MAX_$$field_upper$$_SIZE];",
  "  uint32_t $$field$$_size;",
  "  // field $$field$$ opt func",
  "  $$field_type$$* Add$$field_first_up$$() \x7b",
  "    if ($$field$$_size >= MAX_$$field_upper$$_SIZE) \x7b",
  "        return nullptr;",
  "    \x7d",
  "    $$field$$_size++;",
  "    return &($$field$$[$$field$$_size-1]);",
  "  \x7d",
  "  bool Add$$field_first_up$$(const $$field_type$$& input) \x7b",
  "    if ($$field$$_size >= MAX_$$field_upper$$_SIZE) \x7b",
  "        return false;",
  "    \x7d",
  "    $$field$$[$$field$$_size] = input;",
  "    $$field$$_size++;",
  "    return true;",
  "  \x7d",
  ""]

def hClassEnd : Text := textLines [
  "",
  "  // encode & decode",
  "  bool Encode(char* data, int& len) const;",
  "  bool Decode(const char* data, int len);",
  "\x7d;",
  ""]

def hEnd : Text := textLines [
  "",
  "",
  "\x7d // namespace $$ns$$",
  "",
  "#endif  // $$macro$$",
  ""]

/-! ### The source -/

def ccBegin : Text := textLines [
  "#include \"$$file_pre$$_binpack.h\"",
  ""]

def ccEncodeBegin : Text := textLines [
  "",
  "bool $$ns$$::$$class_name$$::Encode(char* data, int& len) const \x7b",
  "  if (nullptr == data) \x7b",
  "    return false;",
  "  \x7d",
  "  yarf::net::BinEncoder packer(data, len);",
  ""]

def ccEncodeSimpleField : Text := textLines [
  "",
  "  if (!packer.Write($$field$$)) \x7breturn false;\x7d",
  ""]

def ccEncodeStructField : Text := textLines [
  "",
  "  while (true) \x7b",
  "    int sub_pos = packer.WritePos() + sizeof(uint32_t);",
  "    int sub_len = len - sub_pos;",
  "    if ( !$$field$$.Encode( data + sub_pos, sub_len)) \x7b",
  "    \treturn false;",
  "    \x7d",
  "    if (! packer.Write(static_cast<uint32_t>(sub_len)) ) \x7breturn false;\x7d",
  "    if (! packer.SkipWritePos(sub_len) ) \x7breturn false;\x7d",
  "    break;",
  "  \x7d",
  ""]

def ccEncodeStringField : Text := textLines [
  "",
  "  if ( $$field$$_size > MAX_$$field_upper$$_SIZE ) \x7b",
  "      return false;",
  "  \x7d",
  "  if (! packer.Write(static_cast<uint32_t>($$field$$_size)) ) \x7breturn false;\x7d",
  "  if (! packer.Write($$field$$, $$field$$_size)) \x7breturn false;\x7d",
  ""]

def ccEncodeSimpleVecField : Text := textLines [
  "",
  "  if ( $$field$$_size > MAX_$$field_upper$$_SIZE ) \x7b",
  "      return false;",
  "  \x7d",
  "  if (! packer.Write($$field$$_size) ) \x7breturn false;\x7d",
  "  for (uint32_t idx = 0; idx < this->$$field$$_size; ++idx) \x7b",
  "    if (!packer.Write($$field$$[idx])) \x7breturn false;\x7d",
  "  \x7d",
  ""]

def ccEncodeStructVecField : Text := textLines [
  "",
  "  if ( $$field$$_size > MAX_$$field_upper$$_SIZE ) \x7b",
  "      return false;",
  "  \x7d",
  "  if (! packer.Write($$field$$_size) ) \x7breturn false;\x7d",
  "  for (uint32_t idx = 0; idx < this->$$field$$_size; ++idx) \x7b",
  "    int sub_pos = packer.WritePos() + sizeof(uint32_t);",
  "    int sub_len = len - sub_pos;",
  "    if ( !$$field$$[idx].Encode( data + sub_pos, sub_len)) \x7b",
  "    \treturn false;",
  "    \x7d",
  "    if (! packer.Write(static_cast<uint32_t>(sub_len)) ) \x7breturn false;\x7d",
  "    if (! packer.SkipWritePos(sub_len) ) \x7breturn false;\x7d",
  "    break;",
  "  \x7d",
  ""]

def ccEncodeEnd : Text := textLines [
  "   ",
  "  len = packer.WritePos();",
  "  return true;",
  "\x7d",
  ""]

def ccDecodeBegin : Text := textLines [
  "",
  "bool $$ns$$::$$class_name$$::Decode(const char* data, int len) \x7b",
  "  if (nullptr == data) \x7b",
  "    return false;",
  "  \x7d",
  "  yarf::net::BinDecoder packer(data, len);",
  ""]

def ccDecodeSimpleField : Text := textLines [
  "",
  "  if (!packer.Read($$field$$)) \x7breturn false;\x7d",
  ""]

def ccDecodeStructField : Text := textLines [
  "",
  "  while (true) \x7b",
  "    uint32_t sub_len = 0;",
  "    if (!packer.Read(sub_len)) \x7breturn false;\x7d",
  "  \tif (!$$field$$.Decode(data + packer.ReadPos(), sub_len) ) \x7breturn false;\x7d",
  "    if (!packer.SkipReadPos(sub_len)) \x7breturn false;\x7d",
  "    break;",
  "  \x7d",
  ""]

def ccDecodeStringField : Text := textLines [
  "",
  "  if (! packer.Read($$field$$_size) ) \x7breturn false;\x7d",
  "  if (! packer.Read(&($$field$$), $$field$$_size)) \x7breturn false;\x7d",
  ""]

def ccDecodeSimpleVecField : Text := textLines [
  "",
  "  if (!packer.Read($$field$$_size)) \x7breturn false;\x7d",
  "  if ( $$field$$_size  > MAX_$$field_upper$$_SIZE ) \x7b",
  "      return false;",
  "  \x7d",
  "  for (uint32_t idx = 0; idx < $$field$$_size; ++idx) \x7b",
  "    if (!packer.Read($$field$$[idx])) \x7breturn false;\x7d",
  "  \x7d",
  ""]

def ccDecodeStructVecField : Text := textLines [
  "",
  "  if (!packer.Read($$field$$_size)) \x7breturn false;\x7d",
  "  if ( $$field$$_size  > MAX_$$field_upper$$_SIZE ) \x7b",
  "      return false;",
  "  \x7d",
  "  for (uint32_t idx = 0; idx < $$field$$_size; ++idx) \x7b",
  "    uint32_t sub_len = 0;",
  "    if (!packer.Read(sub_len)) \x7breturn false;\x7d",
  "  \tif (!$$field$$[idx].Decode(data + packer.ReadPos(), sub_len) ) \x7breturn false;\x7d",
  "    if (!packer.SkipReadPos(sub_len)) \x7breturn false;\x7d",
  "  \x7d",
  ""]

def codeDecodeEnd : Text := textLines [
  "",
  "  return true;",
  "\x7d",
  ""]

/-! ### The pieces -/

/-- The holes of each template, in the order in which `gen_code` replaces them. The key option is not looked at. -/
def script : Script where
  hBegin := ⟨hBegin, ["macro", "file_pre"]⟩
  hInclude := ⟨hInclude, ["file_pre"]⟩
  hNsBegin := ⟨hNsBegin, ["ns"]⟩
  hClassBegin := ⟨hClassBegin, ["class_name"]⟩
  hSingleField := ⟨hSingleField, ["field_type", "field"]⟩
  hStringField := ⟨hStringField, ["field_upper", "field", "max"]⟩
  hVecField := ⟨hVecField, ["field_type", "field", "field_upper", "field_first_up", "max"]⟩
  hVecFieldMore := .none
  hClassEnd := ⟨hClassEnd, ["class_name", "ns"]⟩
  hEnd := ⟨hEnd, ["ns", "macro"]⟩
  ccBegin := ⟨ccBegin, ["file_pre"]⟩
  ccEncodeBegin := ⟨ccEncodeBegin, ["ns", "class_name"]⟩
  ccEncodeSimpleField := ⟨ccEncodeSimpleField, ["field"]⟩
  ccEncodeStructField := ⟨ccEncodeStructField, ["field"]⟩
  ccEncodeStringField := ⟨ccEncodeStringField, ["field", "field_upper"]⟩
  ccEncodeSimpleVecField := ⟨ccEncodeSimpleVecField, ["field", "field_upper"]⟩
  ccEncodeStructVecField := ⟨ccEncodeStructVecField, ["field", "field_upper"]⟩
  ccEncodeEnd := ⟨ccEncodeEnd, []⟩
  ccDecodeBegin := ⟨ccDecodeBegin, ["ns", "class_name"]⟩
  ccDecodeSimpleField := ⟨ccDecodeSimpleField, ["field"]⟩
  ccDecodeStructField := ⟨ccDecodeStructField, ["field"]⟩
  ccDecodeStringField := ⟨ccDecodeStringField, ["field"]⟩
  ccDecodeSimpleVecField := ⟨ccDecodeSimpleVecField, ["field", "field_upper"]⟩
  ccDecodeStructVecField := ⟨ccDecodeStructVecField, ["field", "field_upper"]⟩
  codeDecodeEnd := ⟨codeDecodeEnd, []⟩
  ccOptFunc := .none
  ccAdditionalOptFunc := .none
  keyed := false

theorem sound : script.Sound where
  hBegin := .ofLines (by repeat' constructor) (by repeat' constructor) rfl (by decide +kernel)
  hInclude := .ofLines (by repeat' constructor) (by repeat' constructor) rfl (by decide +kernel)
  hNsBegin := .ofLines (by repeat' constructor) (by repeat' constructor) rfl (by decide +kernel)
  hClassBegin := .ofLines (by repeat' constructor) (by repeat' constructor) rfl (by decide +kernel)
  hSingleField := .ofLines (by repeat' constructor) (by repeat' constructor) rfl (by decide +kernel)
  hStringField := .ofLines (by repeat' constructor) (by repeat' constructor) rfl (by decide +kernel)
  hVecField := .ofLines (by repeat' constructor) (by repeat' constructor) rfl (by decide +kernel)
  hVecFieldMore := Piece.none_sound
  hClassEnd := .ofLines (by repeat' constructor) (by repeat' constructor) rfl (by decide +kernel)
  hEnd := .ofLines (by repeat' constructor) (by repeat' constructor) rfl (by decide +kernel)
  ccBegin := .ofLines (by repeat' constructor) (by repeat' constructor) rfl (by decide +kernel)
  ccEncodeBegin := .ofLines (by repeat' constructor) (by repeat' constructor) rfl (by decide +kernel)
  ccEncodeSimpleField := .ofLines (by repeat' constructor) (by repeat' constructor) rfl (by decide +kernel)
  ccEncodeStructField := .ofLines (by repeat' constructor) (by repeat' constructor) rfl (by decide +kernel)
  ccEncodeStringField := .ofLines (by repeat' constructor) (by repeat' constructor) rfl (by decide +kernel)
  ccEncodeSimpleVecField := .ofLines (by repeat' constructor) (by repeat' constructor) rfl (by decide +kernel)
  ccEncodeStructVecField := .ofLines (by repeat' constructor) (by repeat' constructor) rfl (by decide +kernel)
  ccEncodeEnd := .ofLines (by repeat' constructor) (by repeat' constructor) rfl (by decide +kernel)
  ccDecodeBegin := .ofLines (by repeat' constructor) (by repeat' constructor) rfl (by decide +kernel)
  ccDecodeSimpleField := .ofLines (by repeat' constructor) (by repeat' constructor) rfl (by decide +kernel)
  ccDecodeStructField := .ofLines (by repeat' constructor) (by repeat' constructor) rfl (by decide +kernel)
  ccDecodeStringField := .ofLines (by repeat' constructor) (by repeat' constructor) rfl (by decide +kernel)
  ccDecodeSimpleVecField := .ofLines (by repeat' constructor) (by repeat' constructor) rfl (by decide +kernel)
  ccDecodeStructVecField := .ofLines (by repeat' constructor) (by repeat' constructor) rfl (by decide +kernel)
  codeDecodeEnd := .ofLines (by repeat' constructor) (by repeat' constructor) rfl (by decide +kernel)
  ccOptFunc := Piece.none_sound
  ccAdditionalOptFunc := Piece.none_sound

end Yarf.Tools.Bin
