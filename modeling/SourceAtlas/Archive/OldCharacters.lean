namespace SourceAtlas.Archive

def upperCharacters : List Char :=
  ("ÇüéâäàåçêëèïîìÄÅÉæÆôöòûùÿÖÜ¢£¥₧ƒáíóúñÑªº¿⌐¬½¼¡«»░▒▓│┤╡╢╖╕╣║╗╝╜╛┐└┴┬├─┼╞╟╚╔╩╦╠═╬╧╨╤╥╙╘╒╓╫╪┘┌█▄▌▐▀" ++
    "αßΓπΣσµτΦΘΩδ∞φε∩≡±≥≤⌠⌡÷≈°∙·√ⁿ²■\u00A0").toList

def oldCharacter (x : UInt8) : Char :=
  if x < 128 then Char.ofNat x.toNat else upperCharacters.getD (x.toNat - 128) ' '

def oldText (b : ByteArray) : String := String.ofList (b.toList.map oldCharacter)

end SourceAtlas.Archive
