/-!
# Code pages

The sets of characters that a text may name. In most of them each byte is one
character: the bytes of ASCII are its characters, and a page of rows holds the
others. Of a set that is no such page only the reason is kept.
-/

set_option autoImplicit false

namespace Sysml.Text

/-- A set in which each byte is one character. -/
structure CodePage where
  /-- The bytes below this number are the characters of their own numbers. -/
  alike : Nat
  /-- The characters of the bytes from that number on, in order. A question mark
  stands where there is none, and there are none after the last row. -/
  rows : List String
  deriving DecidableEq, Repr, Inhabited

namespace CodePage

def ascii : CodePage :=
  ⟨0x80, []⟩

/-- The page of the first 256 characters. -/
def latin : CodePage :=
  ⟨0x100, []⟩

/-- The page of the first displays, with letters, lines and signs. -/
def display : CodePage :=
  ⟨0x80,
    ["ÇüéâäàåçêëèïîìÄÅÉæÆôöòûùÿÖÜ¢£¥₧ƒ",
     "áíóúñÑªº¿⌐¬½¼¡«»░▒▓│┤╡╢╖╕╣║╗╝╜╛┐",
     "└┴┬├─┼╞╟╚╔╩╦╠═╬╧╨╤╥╙╘╒╓╫╪┘┌█▄▌▐▀",
     "αßΓπΣσµτΦΘΩδ∞φε∩≡±≥≤⌠⌡÷≈°∙·√ⁿ²■\u00a0"]⟩

def decode (page : CodePage) (octets : List UInt8) : Option (List Char) :=
  let others := (page.rows.flatMap String.toList).toArray
  octets.mapM fun octet =>
    if octet.toNat < page.alike then some (Char.ofNat octet.toNat)
    else others[octet.toNat - page.alike]?.filter (· != '?')

end CodePage

inductive CharacterSet where
  | page (page : CodePage)
  /-- Some characters take several bytes. -/
  | wide
  /-- The bytes of ASCII are other characters. -/
  | foreign
  /-- What is no character is never passed over. -/
  | strict
  /-- A byte is no character by itself. -/
  | whole
  deriving DecidableEq, Repr, Inhabited

/-- A set of characters with its names, which are in lower case with underscores. -/
structure NamedSet where
  names : List String
  /-- Names that may be written with full stops for underscores. -/
  aliases : List String
  set : CharacterSet
  deriving Repr, Inhabited

def characterSets : List NamedSet :=
  [⟨["ascii", "iso2022_jp", "iso2022_jp_1", "iso2022_jp_2", "iso2022_jp_2004", "iso2022_jp_3",
      "iso2022_jp_ext", "utf_8", "utf_8_sig"],
      ["ansi_x3.4_1968", "ansi_x3.4_1986", "ansi_x3_4_1968", "cp367", "cp65001", "csascii",
       "csiso2022jp", "ibm367", "iso2022jp", "iso2022jp_1", "iso2022jp_2", "iso2022jp_2004",
       "iso2022jp_3", "iso2022jp_ext", "iso646_us", "iso_2022_jp", "iso_2022_jp_1",
       "iso_2022_jp_2", "iso_2022_jp_2004", "iso_2022_jp_3", "iso_2022_jp_ext",
       "iso_646.irv_1991", "iso_ir_6", "u8", "us", "us_ascii", "utf", "utf8", "utf8_ucs2",
       "utf8_ucs4"], .page .ascii⟩,
    ⟨["charmap", "latin_1", "raw_unicode_escape", "unicode_escape"],
      ["cp819", "csisolatin1", "ibm819", "iso8859", "iso8859_1", "iso_8859_1",
       "iso_8859_1_1987", "iso_ir_100", "l1", "latin", "latin1"], .page .latin⟩,
    ⟨["cp1006"], [], .page ⟨0xa1,
      ["۰۱۲۳۴۵۶۷۸۹،؛\u00ad؟ﺁﺍﺎﺎﺏﺑﭖﭘﺓﺕﺗﭦﭨﺙﺛﺝﺟﭺ",
       "ﭼﺡﺣﺥﺧﺩﮄﺫﺭﮌﺯﮊﺱﺳﺵﺷﺹﺻﺽﺿﻁﻅﻉﻊﻋﻌﻍﻎﻏﻐﻑﻓ",
       "ﻕﻗﻙﻛﮒﮔﻝﻟﻠﻡﻣﮞﻥﻧﺅﻭﮦﮨﮩﮪﺀﺉﺊﺋﻱﻲﻳﮰﮮﹼﹽ"]⟩⟩,
    ⟨["cp1125"], ["cp866u", "ibm1125", "ruscii"], .page ⟨0x80,
      ["АБВГДЕЖЗИЙКЛМНОПРСТУФХЦЧШЩЪЫЬЭЮЯ",
       "абвгдежзийклмноп░▒▓│┤╡╢╖╕╣║╗╝╜╛┐",
       "└┴┬├─┼╞╟╚╔╩╦╠═╬╧╨╤╥╙╘╒╓╫╪┘┌█▄▌▐▀",
       "рстуфхцчшщъыьэюяЁёҐґЄєІіЇї·√№¤■\u00a0"]⟩⟩,
    ⟨["cp1250"], ["windows_1250"], .page ⟨0x80,
      ["€?‚?„…†‡?‰Š‹ŚŤŽŹ?‘’“”•–—?™š›śťžź",
       "\u00a0ˇ˘Ł¤Ą¦§¨©Ş«¬\u00ad®Ż°±˛ł´µ¶·¸ąş»Ľ˝ľż",
       "ŔÁÂĂÄĹĆÇČÉĘËĚÍÎĎĐŃŇÓÔŐÖ×ŘŮÚŰÜÝŢß",
       "ŕáâăäĺćçčéęëěíîďđńňóôőö÷řůúűüýţ˙"]⟩⟩,
    ⟨["cp1251"], ["windows_1251"], .page ⟨0x80,
      ["ЂЃ‚ѓ„…†‡€‰Љ‹ЊЌЋЏђ‘’“”•–—?™љ›њќћџ",
       "\u00a0ЎўЈ¤Ґ¦§Ё©Є«¬\u00ad®Ї°±Ііґµ¶·ё№є»јЅѕї",
       "АБВГДЕЖЗИЙКЛМНОПРСТУФХЦЧШЩЪЫЬЭЮЯ",
       "абвгдежзийклмнопрстуфхцчшщъыьэюя"]⟩⟩,
    ⟨["cp1252"], ["windows_1252"], .page ⟨0x80,
      ["€?‚ƒ„…†‡ˆ‰Š‹Œ?Ž??‘’“”•–—˜™š›œ?žŸ",
       "\u00a0¡¢£¤¥¦§¨©ª«¬\u00ad®¯°±²³´µ¶·¸¹º»¼½¾¿",
       "ÀÁÂÃÄÅÆÇÈÉÊËÌÍÎÏÐÑÒÓÔÕÖ×ØÙÚÛÜÝÞß",
       "àáâãäåæçèéêëìíîïðñòóôõö÷øùúûüýþÿ"]⟩⟩,
    ⟨["cp1253"], ["windows_1253"], .page ⟨0x80,
      ["€?‚ƒ„…†‡?‰?‹?????‘’“”•–—?™?›????",
       "\u00a0΅Ά£¤¥¦§¨©?«¬\u00ad®―°±²³΄µ¶·ΈΉΊ»Ό½ΎΏ",
       "ΐΑΒΓΔΕΖΗΘΙΚΛΜΝΞΟΠΡ?ΣΤΥΦΧΨΩΪΫάέήί",
       "ΰαβγδεζηθικλμνξοπρςστυφχψωϊϋόύώ"]⟩⟩,
    ⟨["cp1254"], ["windows_1254"], .page ⟨0x80,
      ["€?‚ƒ„…†‡ˆ‰Š‹Œ????‘’“”•–—˜™š›œ??Ÿ",
       "\u00a0¡¢£¤¥¦§¨©ª«¬\u00ad®¯°±²³´µ¶·¸¹º»¼½¾¿",
       "ÀÁÂÃÄÅÆÇÈÉÊËÌÍÎÏĞÑÒÓÔÕÖ×ØÙÚÛÜİŞß",
       "àáâãäåæçèéêëìíîïğñòóôõö÷øùúûüışÿ"]⟩⟩,
    ⟨["cp1255"], ["windows_1255"], .page ⟨0x80,
      ["€?‚ƒ„…†‡ˆ‰?‹?????‘’“”•–—˜™?›????",
       "\u00a0¡¢£₪¥¦§¨©×«¬\u00ad®¯°±²³´µ¶·¸¹÷»¼½¾¿",
       "\u05b0\u05b1\u05b2\u05b3\u05b4\u05b5\u05b6\u05b7\u05b8\u05b9?\u05bb\u05bc\u05bd־\u05bf",
       "׀\u05c1\u05c2׃װױײ\u05f3״???????אבגדהוזחטיךכלםמן",
       "נסעףפץצקרשת??\u200e\u200f"]⟩⟩,
    ⟨["cp1256"], ["windows_1256"], .page ⟨0x80,
      ["€پ‚ƒ„…†‡ˆ‰ٹ‹Œچژڈگ‘’“”•–—ک™ڑ›œ\u200c\u200dں",
       "\u00a0،¢£¤¥¦§¨©ھ«¬\u00ad®¯°±²³´µ¶·¸¹؛»¼½¾؟",
       "ہءآأؤإئابةتثجحخدذرزسشصض×طظعغـفقك",
       "àلâمنهوçèéêëىيîï\u064b\u064c\u064d\u064eô\u064f\u0650÷\u0651ù\u0652ûü\u200e\u200fے"]⟩⟩,
    ⟨["cp1257"], ["windows_1257"], .page ⟨0x80,
      ["€?‚?„…†‡?‰?‹?¨ˇ¸?‘’“”•–—?™?›?¯˛?",
       "\u00a0?¢£¤?¦§Ø©Ŗ«¬\u00ad®Æ°±²³´µ¶·ø¹ŗ»¼½¾æ",
       "ĄĮĀĆÄÅĘĒČÉŹĖĢĶĪĻŠŃŅÓŌÕÖ×ŲŁŚŪÜŻŽß",
       "ąįāćäåęēčéźėģķīļšńņóōõö÷ųłśūüżž˙"]⟩⟩,
    ⟨["cp1258"], ["windows_1258"], .page ⟨0x80,
      ["€?‚ƒ„…†‡ˆ‰?‹Œ????‘’“”•–—˜™?›œ??Ÿ",
       "\u00a0¡¢£¤¥¦§¨©ª«¬\u00ad®¯°±²³´µ¶·¸¹º»¼½¾¿",
       "ÀÁÂĂÄÅÆÇÈÉÊË\u0300ÍÎÏĐÑ\u0309ÓÔƠÖ×ØÙÚÛÜƯ\u0303ß",
       "àáâăäåæçèéêë\u0301íîïđñ\u0323óôơö÷øùúûüư₫ÿ"]⟩⟩,
    ⟨["cp437"], ["cspc8codepage437", "ibm437"], .page .display⟩,
    ⟨["cp720"], [], .page ⟨0x82,
      ["éâ\u0084à\u0086çêëèïî\u008d\u008e\u008f\u0090\u0651\u0652ô¤ـûùءآأؤ£إئابة",
       "تثجحخدذرزسشص«»░▒▓│┤╡╢╖╕╣║╗╝╜╛┐└┴",
       "┬├─┼╞╟╚╔╩╦╠═╬╧╨╤╥╙╘╒╓╫╪┘┌█▄▌▐▀ضط",
       "ظعغفµقكلمنهوىي≡\u064b\u064c\u064d\u064e\u064f\u0650≈°∙·√ⁿ²■\u00a0"]⟩⟩,
    ⟨["cp737"], [], .page ⟨0x80,
      ["ΑΒΓΔΕΖΗΘΙΚΛΜΝΞΟΠΡΣΤΥΦΧΨΩαβγδεζηθ",
       "ικλμνξοπρσςτυφχψ░▒▓│┤╡╢╖╕╣║╗╝╜╛┐",
       "└┴┬├─┼╞╟╚╔╩╦╠═╬╧╨╤╥╙╘╒╓╫╪┘┌█▄▌▐▀",
       "ωάέήϊίόύϋώΆΈΉΊΌΎΏ±≥≤ΪΫ÷≈°∙·√ⁿ²■\u00a0"]⟩⟩,
    ⟨["cp775"], ["cspc775baltic", "ibm775"], .page ⟨0x80,
      ["ĆüéāäģåćłēŖŗīŹÄÅÉæÆōöĢ¢ŚśÖÜø£Ø×¤",
       "ĀĪóŻżź”¦©®¬½¼Ł«»░▒▓│┤ĄČĘĖ╣║╗╝ĮŠ┐",
       "└┴┬├─┼ŲŪ╚╔╩╦╠═╬Žąčęėįšųūž┘┌█▄▌▐▀",
       "ÓßŌŃõÕµńĶķĻļņĒŅ’\u00ad±“¾¶§÷„°∙·¹³²■\u00a0"]⟩⟩,
    ⟨["cp850"], ["cspc850multilingual", "ibm850"], .page ⟨0x80,
      ["ÇüéâäàåçêëèïîìÄÅÉæÆôöòûùÿÖÜø£Ø×ƒ",
       "áíóúñÑªº¿®¬½¼¡«»░▒▓│┤ÁÂÀ©╣║╗╝¢¥┐",
       "└┴┬├─┼ãÃ╚╔╩╦╠═╬¤ðÐÊËÈıÍÎÏ┘┌█▄¦Ì▀",
       "ÓßÔÒõÕµþÞÚÛÙýÝ¯´\u00ad±‗¾¶§÷¸°¨·¹³²■\u00a0"]⟩⟩,
    ⟨["cp852"], ["cspcp852", "ibm852"], .page ⟨0x80,
      ["ÇüéâäůćçłëŐőîŹÄĆÉĹĺôöĽľŚśÖÜŤťŁ×č",
       "áíóúĄąŽžĘę¬źČş«»░▒▓│┤ÁÂĚŞ╣║╗╝Żż┐",
       "└┴┬├─┼Ăă╚╔╩╦╠═╬¤đĐĎËďŇÍÎě┘┌█▄ŢŮ▀",
       "ÓßÔŃńňŠšŔÚŕŰýÝţ´\u00ad˝˛ˇ˘§÷¸°¨˙űŘř■\u00a0"]⟩⟩,
    ⟨["cp855"], ["csibm855", "ibm855"], .page ⟨0x80,
      ["ђЂѓЃёЁєЄѕЅіІїЇјЈљЉњЊћЋќЌўЎџЏюЮъЪ",
       "аАбБцЦдДеЕфФгГ«»░▒▓│┤хХиИ╣║╗╝йЙ┐",
       "└┴┬├─┼кК╚╔╩╦╠═╬¤лЛмМнНоОп┘┌█▄Пя▀",
       "ЯрРсСтТуУжЖвВьЬ№\u00adыЫзЗшШэЭщЩчЧ§■\u00a0"]⟩⟩,
    ⟨["cp856"], [], .page ⟨0x80,
      ["אבגדהוזחטיךכלםמןנסעףפץצקרשת?£?×?",
       "?????????®¬½¼?«»░▒▓│┤???©╣║╗╝¢¥┐",
       "└┴┬├─┼??╚╔╩╦╠═╬¤?????????┘┌█▄¦?▀",
       "??????µ???????¯´\u00ad±‗¾¶§÷¸°¨·¹³²■\u00a0"]⟩⟩,
    ⟨["cp857"], ["csibm857", "ibm857"], .page ⟨0x80,
      ["ÇüéâäàåçêëèïîıÄÅÉæÆôöòûùİÖÜø£ØŞş",
       "áíóúñÑĞğ¿®¬½¼¡«»░▒▓│┤ÁÂÀ©╣║╗╝¢¥┐",
       "└┴┬├─┼ãÃ╚╔╩╦╠═╬¤ºªÊËÈ?ÍÎÏ┘┌█▄¦Ì▀",
       "ÓßÔÒõÕµ?×ÚÛÙìÿ¯´\u00ad±?¾¶§÷¸°¨·¹³²■\u00a0"]⟩⟩,
    ⟨["cp858"], ["csibm858", "ibm858"], .page ⟨0x80,
      ["ÇüéâäàåçêëèïîìÄÅÉæÆôöòûùÿÖÜø£Ø×ƒ",
       "áíóúñÑªº¿®¬½¼¡«»░▒▓│┤ÁÂÀ©╣║╗╝¢¥┐",
       "└┴┬├─┼ãÃ╚╔╩╦╠═╬¤ðÐÊËÈ€ÍÎÏ┘┌█▄¦Ì▀",
       "ÓßÔÒõÕµþÞÚÛÙýÝ¯´\u00ad±‗¾¶§÷¸°¨·¹³²■\u00a0"]⟩⟩,
    ⟨["cp860"], ["csibm860", "ibm860"], .page ⟨0x80,
      ["ÇüéâãàÁçêÊèÍÔìÃÂÉÀÈôõòÚùÌÕÜ¢£Ù₧Ó",
       "áíóúñÑªº¿Ò¬½¼¡«»░▒▓│┤╡╢╖╕╣║╗╝╜╛┐",
       "└┴┬├─┼╞╟╚╔╩╦╠═╬╧╨╤╥╙╘╒╓╫╪┘┌█▄▌▐▀",
       "αßΓπΣσµτΦΘΩδ∞φε∩≡±≥≤⌠⌡÷≈°∙·√ⁿ²■\u00a0"]⟩⟩,
    ⟨["cp861"], ["cp_is", "csibm861", "ibm861"], .page ⟨0x80,
      ["ÇüéâäàåçêëèÐðÞÄÅÉæÆôöþûÝýÖÜø£Ø₧ƒ",
       "áíóúÁÍÓÚ¿⌐¬½¼¡«»░▒▓│┤╡╢╖╕╣║╗╝╜╛┐",
       "└┴┬├─┼╞╟╚╔╩╦╠═╬╧╨╤╥╙╘╒╓╫╪┘┌█▄▌▐▀",
       "αßΓπΣσµτΦΘΩδ∞φε∩≡±≥≤⌠⌡÷≈°∙·√ⁿ²■\u00a0"]⟩⟩,
    ⟨["cp862"], ["cspc862latinhebrew", "ibm862"], .page ⟨0x80,
      ["אבגדהוזחטיךכלםמןנסעףפץצקרשת¢£¥₧ƒ",
       "áíóúñÑªº¿⌐¬½¼¡«»░▒▓│┤╡╢╖╕╣║╗╝╜╛┐",
       "└┴┬├─┼╞╟╚╔╩╦╠═╬╧╨╤╥╙╘╒╓╫╪┘┌█▄▌▐▀",
       "αßΓπΣσµτΦΘΩδ∞φε∩≡±≥≤⌠⌡÷≈°∙·√ⁿ²■\u00a0"]⟩⟩,
    ⟨["cp863"], ["csibm863", "ibm863"], .page ⟨0x80,
      ["ÇüéâÂà¶çêëèïî‗À§ÉÈÊôËÏûù¤ÔÜ¢£ÙÛƒ",
       "¦´óú¨¸³¯Î⌐¬½¼¾«»░▒▓│┤╡╢╖╕╣║╗╝╜╛┐",
       "└┴┬├─┼╞╟╚╔╩╦╠═╬╧╨╤╥╙╘╒╓╫╪┘┌█▄▌▐▀",
       "αßΓπΣσµτΦΘΩδ∞φε∩≡±≥≤⌠⌡÷≈°∙·√ⁿ²■\u00a0"]⟩⟩,
    ⟨["cp865"], ["csibm865", "ibm865"], .page ⟨0x80,
      ["ÇüéâäàåçêëèïîìÄÅÉæÆôöòûùÿÖÜø£Ø₧ƒ",
       "áíóúñÑªº¿⌐¬½¼¡«¤░▒▓│┤╡╢╖╕╣║╗╝╜╛┐",
       "└┴┬├─┼╞╟╚╔╩╦╠═╬╧╨╤╥╙╘╒╓╫╪┘┌█▄▌▐▀",
       "αßΓπΣσµτΦΘΩδ∞φε∩≡±≥≤⌠⌡÷≈°∙·√ⁿ²■\u00a0"]⟩⟩,
    ⟨["cp866"], ["csibm866", "ibm866"], .page ⟨0x80,
      ["АБВГДЕЖЗИЙКЛМНОПРСТУФХЦЧШЩЪЫЬЭЮЯ",
       "абвгдежзийклмноп░▒▓│┤╡╢╖╕╣║╗╝╜╛┐",
       "└┴┬├─┼╞╟╚╔╩╦╠═╬╧╨╤╥╙╘╒╓╫╪┘┌█▄▌▐▀",
       "рстуфхцчшщъыьэюяЁёЄєЇїЎў°∙·√№¤■\u00a0"]⟩⟩,
    ⟨["cp869"], ["cp_gr", "csibm869", "ibm869"], .page ⟨0x80,
      ["??????Ά?·¬¦‘’Έ―ΉΊΪΌ??ΎΫ©Ώ²³ά£έήί",
       "ϊΐόύΑΒΓΔΕΖΗ½ΘΙ«»░▒▓│┤ΚΛΜΝ╣║╗╝ΞΟ┐",
       "└┴┬├─┼ΠΡ╚╔╩╦╠═╬ΣΤΥΦΧΨΩαβγ┘┌█▄δε▀",
       "ζηθικλμνξοπρσςτ΄\u00ad±υφχ§ψ΅°¨ωϋΰώ■\u00a0"]⟩⟩,
    ⟨["cp874"], [], .page ⟨0x80,
      ["€????…???????????‘’“”•–—????????",
       "\u00a0กขฃคฅฆงจฉชซฌญฎฏฐฑฒณดตถทธนบปผฝพฟ",
       "ภมยรฤลฦวศษสหฬอฮฯะ\u0e31าำ\u0e34\u0e35\u0e36\u0e37\u0e38\u0e39\u0e3a????฿",
       "เแโใไๅๆ\u0e47\u0e48\u0e49\u0e4a\u0e4b\u0e4c\u0e4d\u0e4e๏๐๑๒๓๔๕๖๗๘๙๚๛"]⟩⟩,
    ⟨["hp_roman8"], ["cp1051", "ibm1051", "r8", "roman8"], .page ⟨0xa1,
      ["ÀÂÈÊËÎÏ´ˋˆ¨˜ÙÛ₤¯Ýý°ÇçÑñ¡¿¤£¥§ƒ¢â",
       "êôûáéóúàèòùäëöüÅîØÆåíøæÄìÖÜÉïßÔÁ",
       "ÃãÐðÍÌÓÒÕõŠšÚŸÿÞþ·µ¶¾—¼½ªº«■»±"]⟩⟩,
    ⟨["hz"], ["hz_gb", "hz_gb_2312", "hzgb"], .page ⟨0x7e,
      ["?\u007f"]⟩⟩,
    ⟨["iso8859_10"],
      ["csisolatin6", "iso_8859_10", "iso_8859_10_1992", "iso_ir_157", "l6", "latin6"],
      .page ⟨0xa1,
      ["ĄĒĢĪĨĶ§ĻĐŠŦŽ\u00adŪŊ°ąēģīĩķ·ļđšŧž―ūŋĀ",
       "ÁÂÃÄÅÆĮČÉĘËĖÍÎÏÐŅŌÓÔÕÖŨØŲÚÛÜÝÞßā",
       "áâãäåæįčéęëėíîïðņōóôõöũøųúûüýþĸ"]⟩⟩,
    ⟨["iso8859_11"], ["iso_8859_11", "iso_8859_11_2001", "thai"], .page ⟨0xa1,
      ["กขฃคฅฆงจฉชซฌญฎฏฐฑฒณดตถทธนบปผฝพฟภ",
       "มยรฤลฦวศษสหฬอฮฯะ\u0e31าำ\u0e34\u0e35\u0e36\u0e37\u0e38\u0e39\u0e3a????฿เ",
       "แโใไๅๆ\u0e47\u0e48\u0e49\u0e4a\u0e4b\u0e4c\u0e4d\u0e4e๏๐๑๒๓๔๕๖๗๘๙๚๛"]⟩⟩,
    ⟨["iso8859_13"], ["iso_8859_13", "l7", "latin7"], .page ⟨0xa1,
      ["”¢£¤„¦§Ø©Ŗ«¬\u00ad®Æ°±²³“µ¶·ø¹ŗ»¼½¾æĄ",
       "ĮĀĆÄÅĘĒČÉŹĖĢĶĪĻŠŃŅÓŌÕÖ×ŲŁŚŪÜŻŽßą",
       "įāćäåęēčéźėģķīļšńņóōõö÷ųłśūüżž’"]⟩⟩,
    ⟨["iso8859_14"],
      ["iso_8859_14", "iso_8859_14_1998", "iso_celtic", "iso_ir_199", "l8", "latin8"],
      .page ⟨0xa1,
      ["Ḃḃ£ĊċḊ§Ẁ©ẂḋỲ\u00ad®ŸḞḟĠġṀṁ¶ṖẁṗẃṠỳẄẅṡÀ",
       "ÁÂÃÄÅÆÇÈÉÊËÌÍÎÏŴÑÒÓÔÕÖṪØÙÚÛÜÝŶßà",
       "áâãäåæçèéêëìíîïŵñòóôõöṫøùúûüýŷÿ"]⟩⟩,
    ⟨["iso8859_15"], ["iso_8859_15", "l9", "latin9"], .page ⟨0xa4,
      ["€¥Š§š©ª«¬\u00ad®¯°±²³Žµ¶·ž¹º»ŒœŸ¿ÀÁÂÃ",
       "ÄÅÆÇÈÉÊËÌÍÎÏÐÑÒÓÔÕÖ×ØÙÚÛÜÝÞßàáâã",
       "äåæçèéêëìíîïðñòóôõö÷øùúûüýþÿ"]⟩⟩,
    ⟨["iso8859_16"], ["iso_8859_16", "iso_8859_16_2001", "iso_ir_226", "l10", "latin10"],
      .page ⟨0xa1,
      ["ĄąŁ€„Š§š©Ș«Ź\u00adźŻ°±ČłŽ”¶·žčș»ŒœŸżÀ",
       "ÁÂĂÄĆÆÇÈÉÊËÌÍÎÏĐŃÒÓÔŐÖŚŰÙÚÛÜĘȚßà",
       "áâăäćæçèéêëìíîïđńòóôőöśűùúûüęțÿ"]⟩⟩,
    ⟨["iso8859_2"],
      ["csisolatin2", "iso_8859_2", "iso_8859_2_1987", "iso_ir_101", "l2", "latin2"],
      .page ⟨0xa1,
      ["Ą˘Ł¤ĽŚ§¨ŠŞŤŹ\u00adŽŻ°ą˛ł´ľśˇ¸šşťź˝žżŔ",
       "ÁÂĂÄĹĆÇČÉĘËĚÍÎĎĐŃŇÓÔŐÖ×ŘŮÚŰÜÝŢßŕ",
       "áâăäĺćçčéęëěíîďđńňóôőö÷řůúűüýţ˙"]⟩⟩,
    ⟨["iso8859_3"],
      ["csisolatin3", "iso_8859_3", "iso_8859_3_1988", "iso_ir_109", "l3", "latin3"],
      .page ⟨0xa1,
      ["Ħ˘£¤?Ĥ§¨İŞĞĴ\u00ad?Ż°ħ²³´µĥ·¸ışğĵ½?żÀ",
       "ÁÂ?ÄĊĈÇÈÉÊËÌÍÎÏ?ÑÒÓÔĠÖ×ĜÙÚÛÜŬŜßà",
       "áâ?äċĉçèéêëìíîï?ñòóôġö÷ĝùúûüŭŝ˙"]⟩⟩,
    ⟨["iso8859_4"],
      ["csisolatin4", "iso_8859_4", "iso_8859_4_1988", "iso_ir_110", "l4", "latin4"],
      .page ⟨0xa1,
      ["ĄĸŖ¤ĨĻ§¨ŠĒĢŦ\u00adŽ¯°ą˛ŗ´ĩļˇ¸šēģŧŊžŋĀ",
       "ÁÂÃÄÅÆĮČÉĘËĖÍÎĪĐŅŌĶÔÕÖ×ØŲÚÛÜŨŪßā",
       "áâãäåæįčéęëėíîīđņōķôõö÷øųúûüũū˙"]⟩⟩,
    ⟨["iso8859_5"],
      ["csisolatincyrillic", "cyrillic", "iso_8859_5", "iso_8859_5_1988", "iso_ir_144"],
      .page ⟨0xa1,
      ["ЁЂЃЄЅІЇЈЉЊЋЌ\u00adЎЏАБВГДЕЖЗИЙКЛМНОПР",
       "СТУФХЦЧШЩЪЫЬЭЮЯабвгдежзийклмнопр",
       "стуфхцчшщъыьэюя№ёђѓєѕіїјљњћќ§ўџ"]⟩⟩,
    ⟨["iso8859_6"],
      ["arabic", "asmo_708", "csisolatinarabic", "ecma_114", "iso_8859_6", "iso_8859_6_1987",
       "iso_ir_127"], .page ⟨0xa1,
      ["???¤???????،\u00ad?????????????؛???؟?",
       "ءآأؤإئابةتثجحخدذرزسشصضطظعغ?????ـ",
       "فقكلمنهوىي\u064b\u064c\u064d\u064e\u064f\u0650\u0651\u0652"]⟩⟩,
    ⟨["iso8859_7"],
      ["csisolatingreek", "ecma_118", "elot_928", "greek", "greek8", "iso_8859_7",
       "iso_8859_7_1987", "iso_ir_126"], .page ⟨0xa1,
      ["‘’£€₯¦§¨©ͺ«¬\u00ad?―°±²³΄΅Ά·ΈΉΊ»Ό½ΎΏΐ",
       "ΑΒΓΔΕΖΗΘΙΚΛΜΝΞΟΠΡ?ΣΤΥΦΧΨΩΪΫάέήίΰ",
       "αβγδεζηθικλμνξοπρςστυφχψωϊϋόύώ"]⟩⟩,
    ⟨["iso8859_8"],
      ["csisolatinhebrew", "hebrew", "iso_8859_8", "iso_8859_8_1988", "iso_ir_138"],
      .page ⟨0xa1,
      ["?¢£¤¥¦§¨©×«¬\u00ad®¯°±²³´µ¶·¸¹÷»¼½¾??",
       "??????????????????????????????‗א",
       "בגדהוזחטיךכלםמןנסעףפץצקרשת??\u200e\u200f"]⟩⟩,
    ⟨["iso8859_9"],
      ["csisolatin5", "iso_8859_9", "iso_8859_9_1989", "iso_ir_148", "l5", "latin5"],
      .page ⟨0xd0,
      ["ĞÑÒÓÔÕÖ×ØÙÚÛÜİŞßàáâãäåæçèéêëìíîï",
       "ğñòóôõö÷øùúûüışÿ"]⟩⟩,
    ⟨["koi8_r"], ["cskoi8r"], .page ⟨0x80,
      ["─│┌┐└┘├┤┬┴┼▀▄█▌▐░▒▓⌠■∙√≈≤≥\u00a0⌡°²·÷",
       "═║╒ё╓╔╕╖╗╘╙╚╛╜╝╞╟╠╡Ё╢╣╤╥╦╧╨╩╪╫╬©",
       "юабцдефгхийклмнопярстужвьызшэщчъ",
       "ЮАБЦДЕФГХИЙКЛМНОПЯРСТУЖВЬЫЗШЭЩЧЪ"]⟩⟩,
    ⟨["koi8_t"], [], .page ⟨0x80,
      ["қғ‚Ғ„…†‡?‰ҳ‹ҲҷҶ?Қ‘’“”•–—?™?›????",
       "?ӯӮё¤ӣ¦§???«¬\u00ad®?°±²Ё?Ӣ¶·?№?»???©",
       "юабцдефгхийклмнопярстужвьызшэщчъ",
       "ЮАБЦДЕФГХИЙКЛМНОПЯРСТУЖВЬЫЗШЭЩЧЪ"]⟩⟩,
    ⟨["koi8_u"], [], .page ⟨0x80,
      ["─│┌┐└┘├┤┬┴┼▀▄█▌▐░▒▓⌠■∙√≈≤≥\u00a0⌡°²·÷",
       "═║╒ёє╔ії╗╘╙╚╛ґ╝╞╟╠╡ЁЄ╣ІЇ╦╧╨╩╪Ґ╬©",
       "юабцдефгхийклмнопярстужвьызшэщчъ",
       "ЮАБЦДЕФГХИЙКЛМНОПЯРСТУЖВЬЫЗШЭЩЧЪ"]⟩⟩,
    ⟨["kz1048"], ["kz_1048", "rk1048", "strk1048_2002"], .page ⟨0x80,
      ["ЂЃ‚ѓ„…†‡€‰Љ‹ЊҚҺЏђ‘’“”•–—?™љ›њқһџ",
       "\u00a0ҰұӘ¤Ө¦§Ё©Ғ«¬\u00ad®Ү°±Ііөµ¶·ё№ғ»әҢңү",
       "АБВГДЕЖЗИЙКЛМНОПРСТУФХЦЧШЩЪЫЬЭЮЯ",
       "абвгдежзийклмнопрстуфхцчшщъыьэюя"]⟩⟩,
    ⟨["mac_croatian"], [], .page ⟨0x80,
      ["ÄÅÇÉÑÖÜáàâäãåçéèêëíìîïñóòôöõúùûü",
       "†°¢£§•¶ß®Š™´¨≠ŽØ∞±≤≥∆µ∂∑∏š∫ªºΩžø",
       "¿¡¬√ƒ≈Ć«Č…\u00a0ÀÃÕŒœĐ—“”‘’÷◊\uf8ff©⁄€‹›Æ»",
       "–·‚„‰ÂćÁčÈÍÎÏÌÓÔđÒÚÛÙıˆ˜¯πË˚¸Êæˇ"]⟩⟩,
    ⟨["mac_cyrillic"], ["maccyrillic"], .page ⟨0x80,
      ["АБВГДЕЖЗИЙКЛМНОПРСТУФХЦЧШЩЪЫЬЭЮЯ",
       "†°Ґ£§•¶І®©™Ђђ≠Ѓѓ∞±≤≥іµґЈЄєЇїЉљЊњ",
       "јЅ¬√ƒ≈∆«»…\u00a0ЋћЌќѕ–—“”‘’÷„ЎўЏџ№Ёёя",
       "абвгдежзийклмнопрстуфхцчшщъыьэю€"]⟩⟩,
    ⟨["mac_greek"], ["macgreek"], .page ⟨0x80,
      ["Ä¹²É³ÖÜ΅àâä΄¨çéèêë£™îï•½‰ôö¦€ùûü",
       "†ΓΔΘΛΞΠß®©ΣΪ§≠°·Α±≤≥¥ΒΕΖΗΙΚΜΦΫΨΩ",
       "άΝ¬ΟΡ≈Τ«»…\u00a0ΥΧΆΈœ–―“”‘’÷ΉΊΌΎέήίόΏ",
       "ύαβψδεφγηιξκλμνοπώρστθωςχυζϊϋΐΰ\u00ad"]⟩⟩,
    ⟨["mac_iceland"], ["maciceland"], .page ⟨0x80,
      ["ÄÅÇÉÑÖÜáàâäãåçéèêëíìîïñóòôöõúùûü",
       "Ý°¢£§•¶ß®©™´¨≠ÆØ∞±≤≥¥µ∂∑∏π∫ªºΩæø",
       "¿¡¬√ƒ≈∆«»…\u00a0ÀÃÕŒœ–—“”‘’÷◊ÿŸ⁄€ÐðÞþ",
       "ý·‚„‰ÂÊÁËÈÍÎÏÌÓÔ\uf8ffÒÚÛÙıˆ˜¯˘˙˚¸˝˛ˇ"]⟩⟩,
    ⟨["mac_latin2"], ["mac_centeuro", "maccentraleurope", "maclatin2"], .page ⟨0x80,
      ["ÄĀāÉĄÖÜáąČäčĆćéŹźĎíďĒēĖóėôöõúĚěü",
       "†°Ę£§•¶ß®©™ę¨≠ģĮįĪ≤≥īĶ∂∑łĻļĽľĹĺŅ",
       "ņŃ¬√ńŇ∆«»…\u00a0ňŐÕőŌ–—“”‘’÷◊ōŔŕŘ‹›řŖ",
       "ŗŠ‚„šŚśÁŤťÍŽžŪÓÔūŮÚůŰűŲųÝýķŻŁżĢˇ"]⟩⟩,
    ⟨["mac_roman"], ["macintosh", "macroman"], .page ⟨0x80,
      ["ÄÅÇÉÑÖÜáàâäãåçéèêëíìîïñóòôöõúùûü",
       "†°¢£§•¶ß®©™´¨≠ÆØ∞±≤≥¥µ∂∑∏π∫ªºΩæø",
       "¿¡¬√ƒ≈∆«»…\u00a0ÀÃÕŒœ–—“”‘’÷◊ÿŸ⁄€‹›ﬁﬂ",
       "‡·‚„‰ÂÊÁËÈÍÎÏÌÓÔ\uf8ffÒÚÛÙıˆ˜¯˘˙˚¸˝˛ˇ"]⟩⟩,
    ⟨["mac_romanian"], [], .page ⟨0x80,
      ["ÄÅÇÉÑÖÜáàâäãåçéèêëíìîïñóòôöõúùûü",
       "†°¢£§•¶ß®©™´¨≠ĂȘ∞±≤≥¥µ∂∑∏π∫ªºΩăș",
       "¿¡¬√ƒ≈∆«»…\u00a0ÀÃÕŒœ–—“”‘’÷◊ÿŸ⁄€‹›Țț",
       "‡·‚„‰ÂÊÁËÈÍÎÏÌÓÔ\uf8ffÒÚÛÙıˆ˜¯˘˙˚¸˝˛ˇ"]⟩⟩,
    ⟨["mac_turkish"], ["macturkish"], .page ⟨0x80,
      ["ÄÅÇÉÑÖÜáàâäãåçéèêëíìîïñóòôöõúùûü",
       "†°¢£§•¶ß®©™´¨≠ÆØ∞±≤≥¥µ∂∑∏π∫ªºΩæø",
       "¿¡¬√ƒ≈∆«»…\u00a0ÀÃÕŒœ–—“”‘’÷◊ÿŸĞğİıŞş",
       "‡·‚„‰ÂÊÁËÈÍÎÏÌÓÔ\uf8ffÒÚÛÙ\uf8a0ˆ˜¯˘˙˚¸˝˛ˇ"]⟩⟩,
    ⟨["palmos"], [], .page ⟨0x80,
      ["€\u0081‚ƒ„…†‡ˆ‰Š‹Œ♦♣♥♠‘’“”•–—˜™š\u009bœ\u009d\u009eŸ",
       "\u00a0¡¢£¤¥¦§¨©ª«¬\u00ad®¯°±²³´µ¶·¸¹º»¼½¾¿",
       "ÀÁÂÃÄÅÆÇÈÉÊËÌÍÎÏÐÑÒÓÔÕÖ×ØÙÚÛÜÝÞß",
       "àáâãäåæçèéêëìíîïðñòóôõö÷øùúûüýþÿ"]⟩⟩,
    ⟨["ptcp154"], ["cp154", "csptcp154", "cyrillic_asian", "pt154"], .page ⟨0x80,
      ["ҖҒӮғ„…ҶҮҲүҠӢҢҚҺҸҗ‘’“”•–—ҳҷҡӣңқһҹ",
       "\u00a0ЎўЈӨҘҰ§Ё©Ә«¬ӯ®Ҝ°ұІіҙө¶·ё№ә»јҪҫҝ",
       "АБВГДЕЖЗИЙКЛМНОПРСТУФХЦЧШЩЪЫЬЭЮЯ",
       "абвгдежзийклмнопрстуфхцчшщъыьэюя"]⟩⟩,
    ⟨["tis_620"], ["iso_ir_166", "tis620", "tis_620_0", "tis_620_2529_0", "tis_620_2529_1"],
      .page ⟨0xa0,
      ["?กขฃคฅฆงจฉชซฌญฎฏฐฑฒณดตถทธนบปผฝพฟ",
       "ภมยรฤลฦวศษสหฬอฮฯะ\u0e31าำ\u0e34\u0e35\u0e36\u0e37\u0e38\u0e39\u0e3a????฿",
       "เแโใไๅๆ\u0e47\u0e48\u0e49\u0e4a\u0e4b\u0e4c\u0e4d\u0e4e๏๐๑๒๓๔๕๖๗๘๙๚๛"]⟩⟩,
    ⟨["big5", "big5hkscs", "cp932", "cp949", "cp950", "euc_jis_2004", "euc_jisx0213", "euc_jp",
      "euc_kr", "gb18030", "gb2312", "gbk", "iso2022_kr", "johab", "shift_jis",
      "shift_jis_2004", "shift_jisx0213", "utf_16", "utf_16_be", "utf_16_le", "utf_32",
      "utf_32_be", "utf_32_le", "utf_7"],
      ["big5_hkscs", "big5_tw", "chinese", "cp1361", "cp936", "csbig5", "csiso2022kr",
       "csiso58gb231280", "csshiftjis", "euc_cn", "euc_jis2004", "euccn", "eucgb2312_cn",
       "eucjis2004", "eucjisx0213", "eucjp", "euckr", "gb18030_2000", "gb2312_1980",
       "gb2312_80", "hkscs", "iso2022kr", "iso_2022_kr", "iso_ir_58", "jisx0213", "korean",
       "ks_c_5601", "ks_c_5601_1987", "ks_x_1001", "ksc5601", "ksx1001", "ms1361", "ms932",
       "ms936", "ms949", "ms950", "ms_kanji", "mskanji", "s_jis", "s_jis_2004", "s_jisx0213",
       "shiftjis", "shiftjis2004", "shiftjisx0213", "sjis", "sjis_2004", "sjisx0213", "u16",
       "u32", "u7", "u_jis", "uhc", "ujis", "unicode_1_1_utf_7", "unicodebigunmarked",
       "unicodelittleunmarked", "utf16", "utf32", "utf7", "utf_16be", "utf_16le", "utf_32be",
       "utf_32le", "x_mac_japanese", "x_mac_korean", "x_mac_simp_chinese", "x_mac_trad_chinese"],
      .wide⟩,
    ⟨["cp037", "cp1026", "cp1140", "cp273", "cp424", "cp500", "cp864", "cp875", "mac_arabic",
      "mac_farsi"],
      ["csibm037", "csibm1026", "csibm273", "csibm424", "csibm500", "csibm864", "ebcdic_cp_be",
       "ebcdic_cp_ca", "ebcdic_cp_ch", "ebcdic_cp_he", "ebcdic_cp_nl", "ebcdic_cp_us",
       "ebcdic_cp_wt", "ibm037", "ibm039", "ibm1026", "ibm1140", "ibm273", "ibm424", "ibm500",
       "ibm864"], .foreign⟩,
    ⟨["idna", "undefined"], [], .strict⟩,
    ⟨["punycode"], [], .whole⟩]

/-- A name as sets are listed: in lower case, with one underscore for each run of
characters other than letters, digits and full stops, and none at either end. -/
def listedName (name : String) : String :=
  let words := name.toList.splitBy fun c d => isWordChar c == isWordChar d
  "_".intercalate
    ((words.filter (·.all isWordChar)).map fun word => String.ofList (word.map Char.toLower))
where
  /-- A character that stands for itself in a name. -/
  isWordChar (c : Char) : Bool :=
    c.isAlphanum || c == '.'

def CharacterSet.ofName? (name : String) : Option CharacterSet :=
  let name := listedName name
  let plain := String.ofList (name.toList.map fun c => if c == '.' then '_' else c)
  let found := characterSets.find? fun known =>
    known.aliases.contains name || known.aliases.contains plain || known.names.contains name
  found.map (·.set)

end Sysml.Text
